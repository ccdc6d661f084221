import VolundCode.ProviderKit.Message

/-!
# The sliding window

`SlidingWindowPolicy` keeps the most recent messages that fit the budget and the pinned ones,
and then every message that shares a tool use with one of them.

Whatever it keeps of a conversation as the runner builds it is paired, a tool use being kept
exactly when its result is, if and only if everything fits or no message outside the window
has only some of its tool uses answered in the window or by pinned messages
(`paired_select_iff`). The closure makes one pass: a message that comes in for one of its
tool uses does not bring in the results of the others (`not_paired_select`).
-/

namespace Context

open ProviderKit List

/-! ### Tokens -/

mutual

/-- The text of a part that is counted. -/
def textOf : ContentPart → String
  | .text text => text
  | .thinking text _ => text
  | .toolUse _ _ input => String.ofList input.stringify
  | .toolResult _ content _ => textsOf content
  | .image _ _ => ""
  | .file _ _ _ => ""

/-- The texts of the parts of a tool result. -/
def textsOf : List ContentPart → String
  | [] => ""
  | part :: parts => textOf part ++ textsOf parts

end

/-- The length of a string in UTF-16 code units. -/
def utf16Length (s : String) : ℕ :=
  (s.toList.map fun c => if c.toNat < 0x10000 then 1 else 2).sum

/-- The number of tokens of a text: what the counter says of the text and the model, if there is
a counter and it answers with a number. -/
def estimateTokens (counter : Option (String → String → Option ℚ)) (text model : String) : ℚ :=
  match counter.bind fun count => count text model with
  | some count => count
  | none => ⌈(utf16Length text : ℚ) / (7 / 2)⌉

/-- The number of tokens of a message. -/
def tokens (counter : Option (String → String → Option ℚ)) (model : String) (m : Message) : ℚ :=
  estimateTokens counter (String.intercalate "\n" (m.content.map textOf)) model + 4

/-- The number of tokens of a list of messages. -/
def total (cost : Message → ℚ) (ms : List Message) : ℚ :=
  (ms.map cost).sum

/-! ### The window -/

/-- The ids of the tool uses a message makes or answers. -/
def toolIds (m : Message) : List String :=
  m.content.filterMap fun part =>
    match part with
    | .toolUse id _ _ => some id
    | .toolResult toolUseId _ _ => some toolUseId
    | _ => none

/-- Moves the start of the window back while the messages of the window, which cost `sum`, and
the one before it fit the target. -/
def extendWindow (cost : Message → ℚ) (target : ℚ) (all : List Message) : ℕ → ℚ → ℕ
  | 0, _ => 0
  | start + 1, sum =>
    match all[start]? with
    | none => start + 1
    | some m =>
      if sum + cost m ≤ target then extendWindow cost target all start (sum + cost m)
      else start + 1

/-- Where the window starts. -/
def windowStart (cost : Message → ℚ) (keepRecent : ℕ) (target : ℚ) (all : List Message) : ℕ :=
  let recent := all.length - keepRecent
  let start := extendWindow cost target all recent (total cost (all.drop recent))
  if 0 < start ∧ (all[start]?.map Message.role) = some .assistant then start - 1 else start

/-- The message is pinned. -/
def isPinned (m : Message) : Bool :=
  m.info.pinnedToContext.getD false

/-- The ids of the messages in the window and of the pinned messages. -/
def selectedIds (cost : Message → ℚ) (keepRecent : ℕ) (target : ℚ) (all : List Message) :
    List String :=
  (all.drop (windowStart cost keepRecent target all)).map Message.id ++
    (all.filter isPinned).map Message.id

/-- The tool uses that messages in the window and pinned messages make or answer. -/
def neededIds (cost : Message → ℚ) (keepRecent : ℕ) (target : ℚ) (all : List Message) :
    List String :=
  (all.filter fun m => (selectedIds cost keepRecent target all).contains m.id).flatMap toolIds

/-- The messages that are kept. -/
def select (cost : Message → ℚ) (keepRecent : ℕ) (target : ℚ) (all : List Message) :
    List Message :=
  if total cost all ≤ target then all
  else
    let selected := selectedIds cost keepRecent target all
    let needed := neededIds cost keepRecent target all
    let closed := (all.filter fun m => (toolIds m).any needed.contains).map Message.id
    all.filter fun m => (selected ++ closed).contains m.id

/-! ### The policies -/

structure ContextConfig where
  compactionThreshold : ℚ
  targetRatio : ℚ
  reservedOutputTokens : ℚ
  keepRecent : ℕ
  maxTokens : ℚ

/-- The configuration of a policy that is given none. -/
def ContextConfig.default : ContextConfig where
  compactionThreshold := 85 / 100
  targetRatio := 60 / 100
  reservedOutputTokens := 8192
  keepRecent := 20
  maxTokens := 2 ^ 53 - 1

structure ContextCtx where
  messages : List Message
  model : String
  maxContextTokens : ℚ
  systemTokens : Option ℚ
  toolSchemaTokens : Option ℚ

structure ContextMessages where
  messages : List Message
  removedMessageIds : List String
  estimatedTokens : ℚ
  hasSummary : Bool

structure ContextSnapshot where
  messages : List Message
  compactedMessageIds : List String
  beforeTokens : ℚ
  afterTokens : ℚ
  strategy : String
  hookIntercepted : Bool

/-- A sliding window policy: its configuration, its counter, and what its hook answers before a
compaction, if it has one. -/
structure SlidingWindowPolicy where
  config : ContextConfig
  counter : Option (String → String → Option ℚ)
  preCompact : Option Bool

namespace SlidingWindowPolicy

variable (policy : SlidingWindowPolicy)

def cost (ctx : ContextCtx) : Message → ℚ :=
  tokens policy.counter ctx.model

/-- The tokens there are for messages. -/
def budget (ctx : ContextCtx) : ℚ :=
  max 1 (min policy.config.maxTokens ctx.maxContextTokens - ctx.systemTokens.getD 0 -
    ctx.toolSchemaTokens.getD 0 - policy.config.reservedOutputTokens)

def selectFor (ctx : ContextCtx) (target : ℚ) : List Message :=
  select (policy.cost ctx) policy.config.keepRecent target ctx.messages

/-- The ids of the messages that are not among the kept ones. -/
def removedIds (ctx : ContextCtx) (kept : List Message) : List String :=
  (ctx.messages.filter fun m => !(kept.map Message.id).contains m.id).map Message.id

def shouldCompact (ctx : ContextCtx) : Bool :=
  decide (total (policy.cost ctx) ctx.messages ≥
    policy.budget ctx * policy.config.compactionThreshold)

def buildPrompt (ctx : ContextCtx) : ContextMessages :=
  let messages := policy.selectFor ctx (policy.budget ctx)
  { messages := messages
    removedMessageIds := removedIds ctx messages
    estimatedTokens := total (policy.cost ctx) messages + ctx.systemTokens.getD 0 +
      ctx.toolSchemaTokens.getD 0
    hasSummary := messages.any fun m => m.info.compacted.getD false }

/-- The snapshot of a compaction that the hook prevented. -/
def intercepted (ctx : ContextCtx) (strategy : String) : ContextSnapshot :=
  let tokens := total (policy.cost ctx) ctx.messages
  { messages := ctx.messages
    compactedMessageIds := []
    beforeTokens := tokens
    afterTokens := tokens
    strategy := strategy
    hookIntercepted := true }

def compact (ctx : ContextCtx) : ContextSnapshot :=
  if policy.preCompact = some false then policy.intercepted ctx "sliding"
  else
    let messages := policy.selectFor ctx (policy.budget ctx * policy.config.targetRatio)
    { messages := messages
      compactedMessageIds := removedIds ctx messages
      beforeTokens := total (policy.cost ctx) ctx.messages
      afterTokens := total (policy.cost ctx) messages
      strategy := "sliding"
      hookIntercepted := false }

/-- The messages a compaction drops and those it keeps. -/
def compactPartition (ctx : ContextCtx) : List Message × List Message :=
  let kept := policy.selectFor ctx (policy.budget ctx * policy.config.targetRatio)
  (ctx.messages.filter fun m => !(kept.map Message.id).contains m.id, kept)

end SlidingWindowPolicy

/-- What a summary policy meets: what its hook answers, what the provider answers with (nothing
if it cannot complete or fails), and the time. -/
structure SummaryMoment where
  preCompact : Option Bool
  response : Option String
  isoTime : String
  now : ℚ

/-- The summary that takes the place of the dropped messages. -/
def summaryMessage (dropped : List Message) (raw : String) (moment : SummaryMoment) : Message where
  id := "summary-" ++ ((dropped.getLast?.map Message.id).getD "")
  role := .user
  content := [.text ("<conversation_summary compacted_at=\"" ++ moment.isoTime ++
    "\">\n<untrusted source=\"summary\">\n" ++ raw ++ "\n</untrusted>\n</conversation_summary>")]
  createdAt := moment.now
  info := { Meta.empty with
    compacted := some true
    compactedMessageIds := some (dropped.map Message.id) }

/-- `SummaryPolicy.compact` over a sliding window without a hook. Without a fallback it fails
where the provider does. -/
def summaryCompact (sliding : SlidingWindowPolicy) (fallbackToSliding : Bool) (ctx : ContextCtx)
    (moment : SummaryMoment) : Option ContextSnapshot :=
  if moment.preCompact = some false then some (sliding.intercepted ctx "summary")
  else
    match sliding.compactPartition ctx with
    | ([], _) => some (sliding.compact ctx)
    | (dropped, kept) =>
      match moment.response with
      | some raw =>
        let messages := summaryMessage dropped raw moment :: kept
        some
          { messages := messages
            compactedMessageIds := dropped.map Message.id
            beforeTokens := total (sliding.cost ctx) ctx.messages
            afterTokens := total (sliding.cost ctx) messages
            strategy := "summary"
            hookIntercepted := false }
      | none => if fallbackToSliding then some (sliding.compact ctx) else none

/-! ### Tool exchanges -/

/-- A tool use is among the messages exactly when a result of it is. -/
def Paired (ms : List Message) : Prop :=
  ∀ x, x ∈ useIds ms ↔ x ∈ resultIds ms

/-- A conversation as the runner builds it: its messages and its tool uses have ids of their own,
every tool use is answered in a later message, every answer is a message of its own, and
nothing is answered that was not asked. -/
structure RunnerBuilt (all : List Message) : Prop where
  distinct : (all.map Message.id).Nodup
  unique : (useIds all).Nodup
  answered : ∀ i (hi : i < all.length), ∀ x ∈ all[i].useIds,
    ∃ j, ∃ hj : j < all.length, i < j ∧ x ∈ all[j].resultIds
  own : ∀ m ∈ all, ∀ x ∈ m.resultIds, toolIds m = [x]
  asked : ∀ x ∈ resultIds all, x ∈ useIds all

/-- Of a message whose tool uses are answered in the window or by pinned messages, either none
or all are answered or made there. -/
def WholeExchanges (cost : Message → ℚ) (keepRecent : ℕ) (target : ℚ) (all : List Message) :
    Prop :=
  ∀ m ∈ all, ∀ x ∈ m.useIds, x ∈ neededIds cost keepRecent target all →
    ∀ y ∈ m.useIds, y ∈ neededIds cost keepRecent target all

instance (cost : Message → ℚ) (keepRecent : ℕ) (target : ℚ) (all : List Message) :
    Decidable (WholeExchanges cost keepRecent target all) :=
  inferInstanceAs (Decidable (∀ m ∈ all, ∀ x ∈ m.useIds, _ → ∀ y ∈ m.useIds, _))

/-! ### What is kept -/

/-- The tool uses of a message are those it makes and those it answers. -/
theorem mem_toolIds {m : Message} {x : String} :
  x ∈ toolIds m ↔ x ∈ m.useIds ∨ x ∈ m.resultIds
  := by
  simp only [toolIds, Message.useIds, Message.resultIds, mem_filterMap, ← exists_or]
  apply exists_congr
  intro part
  cases part <;> simp [ContentPart.useId, ContentPart.resultId]

/-- Messages with distinct ids are told apart by their ids. -/
theorem eq_of_id_eq {all : List Message} (hall : (all.map Message.id).Nodup) {m k : Message}
    (hm : m ∈ all) (hk : k ∈ all) (h : m.id = k.id) :
  m = k
  := inj_on_of_nodup_map hall hm hk h

section Select

variable {cost : Message → ℚ} {keepRecent : ℕ} {target : ℚ} {all : List Message}

variable {m : Message}

/-- Where something does not fit, the messages kept are those in the window, the pinned ones and
those that share a tool use with one of them. -/
theorem mem_select (hall : (all.map Message.id).Nodup) (hfits : ¬ total cost all ≤ target) :
  m ∈ select cost keepRecent target all ↔ m ∈ all ∧ (m.id ∈ selectedIds cost keepRecent target all ∨
      ∃ x ∈ toolIds m, x ∈ neededIds cost keepRecent target all)
  := by
  rw [select, if_neg hfits]
  simp only [mem_filter, contains_eq_mem, mem_append, mem_map, decide_eq_true_eq, any_eq_true]
  constructor
  · rintro ⟨hm, hsel | ⟨k, ⟨hk, x, hx, hneeded⟩, hid⟩⟩
    · exact ⟨hm, Or.inl hsel⟩
    · obtain rfl := eq_of_id_eq hall hk hm hid
      exact ⟨hm, Or.inr ⟨x, hx, hneeded⟩⟩
  · rintro ⟨hm, hsel | ⟨x, hx, hneeded⟩⟩
    · exact ⟨hm, Or.inl hsel⟩
    · exact ⟨hm, Or.inr ⟨m, ⟨hm, x, hx, hneeded⟩, rfl⟩⟩

variable {x : String}

/-- The tool uses of a message in the window and of a pinned message are needed. -/
theorem mem_neededIds_of_selected (hm : m ∈ all)
    (hsel : m.id ∈ selectedIds cost keepRecent target all) (hx : x ∈ toolIds m) :
  x ∈ neededIds cost keepRecent target all
  := by
  rw [neededIds, mem_flatMap]
  refine ⟨m, ?_, hx⟩
  simpa [mem_filter] using ⟨hm, hsel⟩

/-- Every message that makes or answers a needed tool use is kept. -/
theorem mem_select_of_needed (hall : (all.map Message.id).Nodup)
    (hfits : ¬ total cost all ≤ target) (hm : m ∈ all)
    (hx : x ∈ toolIds m) (hneeded : x ∈ neededIds cost keepRecent target all) :
  m ∈ select cost keepRecent target all
  := (mem_select hall hfits).mpr ⟨hm, Or.inr ⟨x, hx, hneeded⟩⟩

/-- A tool use that is answered in a kept message is needed. -/
theorem needed_of_result (hall : RunnerBuilt all) (hfits : ¬ total cost all ≤ target)
    (hm : m ∈ select cost keepRecent target all) (hx : x ∈ m.resultIds) :
  x ∈ neededIds cost keepRecent target all
  := by
  obtain ⟨hmem, hsel | ⟨z, hz, hneeded⟩⟩ := (mem_select hall.distinct hfits).mp hm
  · apply mem_neededIds_of_selected hmem hsel
    apply mem_toolIds.mpr (Or.inr hx)
  · rw [hall.own m hmem x hx, mem_singleton] at hz
    rw [← hz]
    apply hneeded

/-- Where no exchange is cut, a tool use that is made in a kept message is needed. -/
theorem needed_of_use (hall : RunnerBuilt all) (hfits : ¬ total cost all ≤ target)
    (hwhole : WholeExchanges cost keepRecent target all)
    (hm : m ∈ select cost keepRecent target all) (hx : x ∈ m.useIds) :
  x ∈ neededIds cost keepRecent target all
  := by
  obtain ⟨hmem, hsel | ⟨z, hz, hneeded⟩⟩ := (mem_select hall.distinct hfits).mp hm
  · apply mem_neededIds_of_selected hmem hsel
    apply mem_toolIds.mpr (Or.inl hx)
  rcases mem_toolIds.mp hz with hz | hz
  · apply hwhole m hmem z hz hneeded x hx
  have hown := hall.own m hmem z hz
  have hx' : x ∈ toolIds m := mem_toolIds.mpr (Or.inl hx)
  rw [hown, mem_singleton] at hx'
  rw [hx']
  apply hneeded

/-- A conversation as the runner builds it is paired. -/
theorem RunnerBuilt.paired (hall : RunnerBuilt all) :
  Paired all
  := by
  intro x
  constructor
  · intro hx
    obtain ⟨m, hm, hx⟩ := mem_useIds.mp hx
    obtain ⟨i, hi, rfl⟩ := getElem_of_mem hm
    obtain ⟨j, hj, -, hres⟩ := hall.answered i hi x hx
    apply mem_resultIds.mpr
    exact ⟨all[j], getElem_mem hj, hres⟩
  · apply hall.asked

/-- Where no exchange is cut, what is kept is paired. -/
theorem paired_of_wholeExchanges (hall : RunnerBuilt all) (hfits : ¬ total cost all ≤ target)
    (hwhole : WholeExchanges cost keepRecent target all) :
  Paired (select cost keepRecent target all)
  := by
  intro x
  constructor
  · intro hx
    obtain ⟨m, hm, hx⟩ := mem_useIds.mp hx
    have hneeded := needed_of_use hall hfits hwhole hm hx
    have hall' : x ∈ useIds all :=
      mem_useIds.mpr ⟨m, ((mem_select hall.distinct hfits).mp hm).1, hx⟩
    obtain ⟨k, hk, hres⟩ := mem_resultIds.mp ((hall.paired x).mp hall')
    apply mem_resultIds.mpr
    refine ⟨k, ?_, hres⟩
    apply mem_select_of_needed hall.distinct hfits hk (mem_toolIds.mpr (Or.inr hres)) hneeded
  intro hx
  obtain ⟨m, hm, hx⟩ := mem_resultIds.mp hx
  have hneeded := needed_of_result hall hfits hm hx
  have hall' : x ∈ resultIds all :=
    mem_resultIds.mpr ⟨m, ((mem_select hall.distinct hfits).mp hm).1, hx⟩
  obtain ⟨k, hk, huse⟩ := mem_useIds.mp ((hall.paired x).mpr hall')
  apply mem_useIds.mpr
  refine ⟨k, ?_, huse⟩
  apply mem_select_of_needed hall.distinct hfits hk (mem_toolIds.mpr (Or.inl huse)) hneeded

/-- Where what is kept is paired, no exchange is cut. -/
theorem wholeExchanges_of_paired (hall : RunnerBuilt all) (hfits : ¬ total cost all ≤ target)
    (hpaired : Paired (select cost keepRecent target all)) :
  WholeExchanges cost keepRecent target all
  := by
  intro m hm x hx hneeded y hy
  have hkept : m ∈ select cost keepRecent target all :=
    mem_select_of_needed hall.distinct hfits hm (mem_toolIds.mpr (Or.inl hx)) hneeded
  have huse : y ∈ useIds (select cost keepRecent target all) := mem_useIds.mpr ⟨m, hkept, hy⟩
  obtain ⟨k, hk, hres⟩ := mem_resultIds.mp ((hpaired y).mp huse)
  apply needed_of_result hall hfits hk hres

/-- What is kept is paired exactly when everything fits or no exchange is cut. -/
theorem paired_iff_wholeExchanges (hall : RunnerBuilt all) :
  Paired (select cost keepRecent target all) ↔
    total cost all ≤ target ∨ WholeExchanges cost keepRecent target all
  := by
  by_cases hfits : total cost all ≤ target
  · simp only [select, hfits, if_true, true_or, iff_true]
    apply hall.paired
  constructor
  · intro hpaired
    right
    apply wholeExchanges_of_paired hall hfits hpaired
  · rintro (h | hwhole)
    · apply absurd h hfits
    · apply paired_of_wholeExchanges hall hfits hwhole

end Select

/-! ### The policies keep what the window selects -/

section Policies

variable (policy : SlidingWindowPolicy) {ctx : ContextCtx}

/-- A prompt is paired exactly when everything fits the budget or no exchange is cut. -/
theorem paired_buildPrompt_iff (hall : RunnerBuilt ctx.messages) :
  Paired (policy.buildPrompt ctx).messages ↔
    total (policy.cost ctx) ctx.messages ≤ policy.budget ctx ∨
      WholeExchanges (policy.cost ctx) policy.config.keepRecent (policy.budget ctx) ctx.messages
  := paired_iff_wholeExchanges hall

/-- A compaction that its hook does not prevent keeps what is paired exactly when everything fits
the target or no exchange is cut. -/
theorem paired_compact_iff (hall : RunnerBuilt ctx.messages)
    (hhook : policy.preCompact ≠ some false) :
  Paired (policy.compact ctx).messages ↔
    total (policy.cost ctx) ctx.messages ≤ policy.budget ctx * policy.config.targetRatio ∨
      WholeExchanges (policy.cost ctx) policy.config.keepRecent
        (policy.budget ctx * policy.config.targetRatio) ctx.messages
  := by
  rw [SlidingWindowPolicy.compact, if_neg hhook]
  apply paired_iff_wholeExchanges hall

/-- A summary neither uses a tool nor answers one: a summarized conversation is paired exactly
when what it keeps is. -/
theorem paired_summary_iff (dropped kept : List Message) (raw : String) (moment : SummaryMoment) :
  Paired (summaryMessage dropped raw moment :: kept) ↔ Paired kept
  := by
  apply forall_congr'
  intro x
  have huse : useIds (summaryMessage dropped raw moment :: kept) = useIds kept := rfl
  have hres : resultIds (summaryMessage dropped raw moment :: kept) = resultIds kept := rfl
  rw [huse, hres]

/-- What a summary policy keeps is what the window selects. -/
theorem paired_compactPartition_iff (hall : RunnerBuilt ctx.messages) :
  Paired (policy.compactPartition ctx).2 ↔
    total (policy.cost ctx) ctx.messages ≤ policy.budget ctx * policy.config.targetRatio ∨
      WholeExchanges (policy.cost ctx) policy.config.keepRecent
        (policy.budget ctx * policy.config.targetRatio) ctx.messages
  := paired_iff_wholeExchanges hall

end Policies

/-! ### Compaction and tool exchanges -/

/-- What is kept of a conversation as the runner builds it is paired if and only if everything
fits, or of every message whose tool uses the window and the pinned messages make or answer
they make or answer all. -/
theorem paired_select_iff
    (cost : Message → ℚ) (keepRecent : ℕ) (target : ℚ) {all : List Message}
    (hall : RunnerBuilt all) :
  Paired (select cost keepRecent target all) ↔
    total cost all ≤ target ∨ WholeExchanges cost keepRecent target all
  := paired_iff_wholeExchanges hall

/-- A message of a sample conversation. -/
def sampleMessage (id : String) (role : Role) (content : List ContentPart) : Message where
  id := id
  role := role
  content := content
  createdAt := 0
  info := Meta.empty

/-- A conversation in which two tools are used at once, each answered in a message of its
own. -/
def sampleConversation : List Message :=
  [sampleMessage "m0" .user [.text "go"],
    sampleMessage "m1" .assistant [.toolUse "x" "Read" .null, .toolUse "y" "Read" .null],
    sampleMessage "m2" .user [.toolResult "x" [.text "a"] none],
    sampleMessage "m3" .user [.toolResult "y" [.text "b"] none],
    sampleMessage "m4" .user [.text "and now?"]]

/-- Every text counts one token. -/
def sampleCost : Message → ℚ :=
  tokens (some fun _ _ => some 1) "model"

theorem sampleConversation_runnerBuilt : RunnerBuilt sampleConversation := by
  constructor
  all_goals decide

theorem paired_select_iff_sampleConversation :
  Paired (select sampleCost 1 5 sampleConversation)
  := by
  apply (paired_select_iff sampleCost 1 5 sampleConversation_runnerBuilt).mpr
  right
  decide +kernel

/-- What is kept need not be paired: the window starts between the two answers. -/
theorem not_paired_select :
  ¬ ∀ cost keepRecent target all, RunnerBuilt all → Paired (select cost keepRecent target all)
  := by
  intro h
  have hpaired := h sampleCost 2 10 sampleConversation sampleConversation_runnerBuilt "x"
  have huse : "x" ∈ useIds (select sampleCost 2 10 sampleConversation) := by decide +kernel
  have hres : "x" ∉ resultIds (select sampleCost 2 10 sampleConversation) := by
    decide +kernel
  apply hres (hpaired.mp huse)

end Context
