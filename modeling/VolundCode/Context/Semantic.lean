import VolundCode.Context.SlidingWindow

/-!
# Semantic selection

`SemanticPolicy` keeps the most recent messages, the pinned ones, and those whose embeddings are
the most similar to that of the last message of the user. Without an index or an embedding of that
message another policy takes over, by default one that keeps the most recent messages alone.

What is kept is in the order of the conversation, and what is not kept is reported as removed. But
the messages are chosen one by one, so that a tool use may be kept without its result
(`not_selects`), and the default policy does not look at the pinned messages. A selection is as it
should be exactly if the choice takes both sides of every exchange or neither, and, where the
default policy takes over, all pinned messages are recent (`selects_iff`).
-/

namespace Context.Semantic

open ProviderKit List

open SlidingWindowPolicy (removedIds)

/-- The text of a message, as it is embedded and counted. -/
def textOf (m : Message) : String :=
  String.intercalate "\n" <| m.content.map fun part =>
    match part with
    | .text text | .thinking text _ => text
    | .toolUse _ _ input => String.ofList input.stringify
    | .toolResult _ content _ => String.join <| content.map fun part =>
      match part with
      | .text text | .thinking text _ => text
      | _ => ""
    | _ => ""

/-- The last `k` elements, as `slice(-k)` gives them. -/
def sliceLast {α : Type} (k : ℕ) (l : List α) : List α :=
  if k = 0 then l else l.drop (l.length - k)

/-- The first `k` elements, or without the last `-k`, as `slice(0, k)` gives them. -/
def sliceTo {α : Type} (k : ℤ) (l : List α) : List α :=
  l.take (if 0 ≤ k then k else l.length + k).toNat

def hasSummary (ms : List Message) : Bool :=
  ms.any fun m => m.info.compacted.getD false

/-! ### The policies -/

/-- A policy that may take over. It may refuse a compaction. -/
structure Policy where
  estimateTokens : String → String → ℚ
  shouldCompact : ContextCtx → Bool
  buildPrompt : ContextCtx → ContextMessages
  compact : ContextCtx → Option ContextSnapshot

namespace NonSemanticFallbackPolicy

def estimateTokens (text : String) : ℚ :=
  ⌈(utf16Length text : ℚ) / (7 / 2)⌉

variable (keepRecent : ℕ) (ctx : ContextCtx)

def buildPrompt : ContextMessages :=
  let messages := sliceLast keepRecent ctx.messages
  { messages := messages
    removedMessageIds := removedIds ctx messages
    estimatedTokens := total (estimateTokens ∘ textOf) messages + ctx.systemTokens.getD 0 +
      ctx.toolSchemaTokens.getD 0
    hasSummary := hasSummary messages }

def compact : ContextSnapshot :=
  let prompt := buildPrompt keepRecent ctx
  let cost := fun m => estimateTokens (textOf m) + 4
  { messages := prompt.messages
    compactedMessageIds := prompt.removedMessageIds
    beforeTokens := total cost ctx.messages
    afterTokens := total cost prompt.messages
    strategy := "semantic-fallback"
    hookIntercepted := false }

def policy : Policy where
  estimateTokens text _ := estimateTokens text
  shouldCompact _ := false
  buildPrompt := buildPrompt keepRecent
  compact ctx := some (compact keepRecent ctx)

end NonSemanticFallbackPolicy

/-- An entry of the index. -/
structure Record (Number : Type) where
  messageId : String
  embedding : List Number

/-- A policy: its configuration, the policy that is to take over, and the similarity of two
embeddings, which need not be a number. -/
structure SemanticPolicy (Number Score : Type) where
  keepRecent : ℕ
  topK : ℤ
  minScore : Score
  fallback : Option Policy
  cosine : List Number → List Number → Option Score

variable {Number Score : Type} [LinearOrder Score]

namespace SemanticPolicy

variable (policy : SemanticPolicy Number Score)

def fallbackPolicy : Policy :=
  policy.fallback.getD (NonSemanticFallbackPolicy.policy policy.keepRecent)

def estimateTokens (text model : String) : ℚ :=
  policy.fallbackPolicy.estimateTokens text model

variable (ctx : ContextCtx)

def shouldCompact : Bool :=
  policy.fallbackPolicy.shouldCompact ctx

def totalTokens (ms : List Message) : ℚ :=
  total (fun m => policy.estimateTokens (textOf m) ctx.model + 4) ms

/-- The embedding of a message: that of its last entry. -/
def embeddingOf (records : List (Record Number)) (id : String) : List Number :=
  ((records.reverse.find? fun record => record.messageId = id).map Record.embedding).getD []

/-- The embedding of the last message of the user: that of its first entry. -/
def queryEmbeddingFromIndex (records : List (Record Number)) : List Number :=
  ((ctx.messages.reverse.find? fun m => m.role = .user).bind fun latest =>
    (records.find? fun record => record.messageId = latest.id).map Record.embedding).getD []

/-- The ids of the messages that are the most similar to what is looked for. -/
def hits (records : List (Record Number)) (query : List Number) : List String :=
  let scored := ctx.messages.filterMap fun m =>
    (policy.cosine query (embeddingOf records m.id)).map fun score => (m.id, score)
  let similar := scored.filter fun hit => policy.minScore ≤ hit.2
  (sliceTo policy.topK (similar.mergeSort fun a b => b.2 ≤ a.2)).map Prod.fst

/-- The messages that are kept, of an index and an embedding that is looked for. -/
def selectWithIndex (records : List (Record Number)) (query : List Number) :
    Option (List Message) :=
  if query.length = 0 then none
  else
    let recent := (sliceLast policy.keepRecent ctx.messages).map Message.id
    let pinned := (ctx.messages.filter isPinned).map Message.id
    some (ctx.messages.filter fun m =>
      (policy.hits ctx records query ++ recent ++ pinned).contains m.id)

/-- What is looked for in the index there is. -/
def indexed (index : Option (List (Record Number))) :
    Option (List (Record Number) × List Number) :=
  index.map fun records => (records, queryEmbeddingFromIndex ctx records)

def buildPrompt (index : Option (List (Record Number))) : ContextMessages :=
  match (indexed ctx index).bind fun found => policy.selectWithIndex ctx found.1 found.2 with
  | none => policy.fallbackPolicy.buildPrompt ctx
  | some messages =>
    { messages := messages
      removedMessageIds := removedIds ctx messages
      estimatedTokens := policy.totalTokens ctx messages + ctx.systemTokens.getD 0 +
        ctx.toolSchemaTokens.getD 0
      hasSummary := hasSummary messages }

/-- The index of the embeddings that the provider answers the texts of the messages with, if it is
authorized and answers. -/
def refreshIndex (answer : Option (List (List Number))) : Option (List (Record Number)) :=
  answer.bind fun embeddings =>
    if embeddings.length ≠ ctx.messages.length then none
    else some (zipWith (fun m embedding => ⟨m.id, embedding⟩) ctx.messages embeddings)

/-- What is looked for in a new index, with the provider's answers to the texts of the messages and
to the text of the last message of the user. -/
def refreshed (texts query : Option (List (List Number))) :
    Option (List (Record Number) × List Number) :=
  (refreshIndex ctx texts).bind fun records => query.map fun answer => (records, answer.headD [])

/-- What a compaction returns, and the index it leaves. -/
def compact (index : Option (List (Record Number))) (texts query : Option (List (List Number))) :
    Option ContextSnapshot × Option (List (Record Number)) :=
  let found := (refreshed ctx texts query).bind fun found =>
    policy.selectWithIndex ctx found.1 found.2
  (match found with
    | none => policy.fallbackPolicy.compact ctx
    | some messages => some
      { messages := messages
        compactedMessageIds := removedIds ctx messages
        beforeTokens := policy.totalTokens ctx ctx.messages
        afterTokens := policy.totalTokens ctx messages
        strategy := "semantic"
        hookIntercepted := false },
    (refreshIndex ctx texts).or index)

end SemanticPolicy

/-! ### Whole exchanges -/

/-- A conversation whose messages and tool uses have ids of their own, and in which every tool use
has one result. -/
structure WellPaired (all : List Message) : Prop where
  distinct : (all.map Message.id).Nodup
  uses : (useIds all).Nodup
  results : (resultIds all).Nodup
  paired : Paired all

/-- These messages are kept of a conversation as they should be, and the others removed. -/
structure Selects (keepRecent : ℕ) (all kept : List Message) (removed : List String) : Prop where
  sublist : kept <+ all
  recent : ∀ m ∈ all.drop (all.length - keepRecent), m ∈ kept
  pinned : ∀ m ∈ all, isPinned m → m ∈ kept
  paired : Paired kept
  partition : kept.map Message.id ++ removed ~ all.map Message.id

/-- Of every exchange both sides are chosen, or neither. -/
def Whole (chosen : Message → Prop) (all : List Message) : Prop :=
  ∀ m ∈ all, ∀ k ∈ all, ∀ x ∈ m.useIds, x ∈ k.resultIds → (chosen m ↔ chosen k)

/-- The default policy keeps every exchange whole and all that is pinned. -/
def KeepsRecent (keepRecent : ℕ) (all : List Message) : Prop :=
  (∀ m ∈ all, isPinned m → m ∈ sliceLast keepRecent all) ∧
    Whole (· ∈ sliceLast keepRecent all) all

variable {ctx : ContextCtx}

/-- A message of a conversation whose messages have ids of their own is told by its id. -/
theorem mem_of_id_mem {all kept : List Message} (hall : (all.map Message.id).Nodup)
    (hsub : kept <+ all) {m : Message} (hm : m ∈ all) :
  m.id ∈ kept.map Message.id ↔ m ∈ kept
  := by
  constructor
  · intro h
    obtain ⟨k, hk, hid⟩ := mem_map.mp h
    rw [eq_of_id_eq hall hm (hsub.subset hk) hid.symm]
    apply hk
  · apply mem_map_of_mem

/-- A tool use is of one message. -/
theorem eq_of_mem_ids {all : List Message} {ids : Message → List String}
    (h : (all.flatMap ids).Nodup) {m k : Message} (hm : m ∈ all) (hk : k ∈ all) {x : String}
    (hx : x ∈ ids m) (hx' : x ∈ ids k) :
  m = k
  := by
  by_contra hne
  have hsymm : Std.Symm (Function.onFun List.Disjoint ids) := ⟨fun _ _ h => h.symm⟩
  apply (nodup_flatMap.mp h).2.forall hm hk hne hx hx'

variable {all kept : List Message}

/-- Of messages that are kept in their order, the exchanges are paired exactly if they are whole. -/
theorem paired_iff_whole (hall : WellPaired all) (hsub : kept <+ all) :
  Paired kept ↔ Whole (· ∈ kept) all
  := by
  constructor
  · intro hpaired m hm k hk x hx hres
    constructor
    · intro hkept
      obtain ⟨k', hk', hres'⟩ :=
        mem_resultIds.mp ((hpaired x).mp (mem_useIds.mpr ⟨m, hkept, hx⟩))
      rw [eq_of_mem_ids hall.results hk (hsub.subset hk') hres hres']
      apply hk'
    intro hkept
    obtain ⟨m', hm', hx'⟩ := mem_useIds.mp ((hpaired x).mpr (mem_resultIds.mpr ⟨k, hkept, hres⟩))
    rw [eq_of_mem_ids hall.uses hm (hsub.subset hm') hx hx']
    apply hm'
  intro hwhole x
  constructor
  · intro hx
    obtain ⟨m, hm, hx⟩ := mem_useIds.mp hx
    obtain ⟨k, hk, hres⟩ := mem_resultIds.mp
      ((hall.paired x).mp (mem_useIds.mpr ⟨m, hsub.subset hm, hx⟩))
    apply mem_resultIds.mpr
    use k, (hwhole m (hsub.subset hm) k hk x hx hres).mp hm
  intro hx
  obtain ⟨k, hk, hres⟩ := mem_resultIds.mp hx
  obtain ⟨m, hm, hx⟩ := mem_useIds.mp
    ((hall.paired x).mpr (mem_resultIds.mpr ⟨k, hsub.subset hk, hres⟩))
  apply mem_useIds.mpr
  use m, (hwhole m hm k (hsub.subset hk) x hx hres).mpr hk

/-- What is kept in order, and what is reported as removed, make up the conversation. -/
theorem partition_removedIds (hall : (ctx.messages.map Message.id).Nodup)
    (hsub : kept <+ ctx.messages) :
  kept.map Message.id ++ removedIds ctx kept ~ ctx.messages.map Message.id
  := by
  rw [perm_ext_iff_of_nodup _ hall]
  · intro id
    rw [mem_append, removedIds]
    constructor
    · rintro (h | h)
      · apply (hsub.map _).subset h
      · apply (filter_sublist.map _).subset h
    intro h
    by_cases hid : id ∈ kept.map Message.id
    · left
      apply hid
    obtain ⟨m, hm, rfl⟩ := mem_map.mp h
    right
    apply mem_map_of_mem (mem_filter.mpr ⟨hm, by simpa using hid⟩)
  apply ((hsub.map _).nodup hall).append ((filter_sublist.map _).nodup hall)
  intro id hid hrem
  obtain ⟨m, hm, rfl⟩ := mem_map.mp hrem
  have hnot := (mem_filter.mp hm).2
  rw [Bool.not_eq_true', contains_eq_mem, decide_eq_false_iff_not] at hnot
  apply hnot hid

variable {keepRecent : ℕ}

/-- What is kept in order of these messages is kept as it should be exactly if the recent and the
pinned messages are among them, and the exchanges whole. -/
theorem selects_iff_whole (hall : WellPaired ctx.messages)
    (hsub : kept <+ ctx.messages) {chosen : Message → Prop}
    (hkept : ∀ m ∈ ctx.messages, m ∈ kept ↔ chosen m) :
  Selects keepRecent ctx.messages kept (removedIds ctx kept) ↔
    (∀ m ∈ ctx.messages.drop (ctx.messages.length - keepRecent), chosen m) ∧
      (∀ m ∈ ctx.messages, isPinned m → chosen m) ∧ Whole chosen ctx.messages
  := by
  have hwhole : Whole (· ∈ kept) ctx.messages ↔ Whole chosen ctx.messages := by
    apply forall₂_congr
    intro m hm
    apply forall₂_congr
    intro k hk
    beta_reduce
    rw [hkept m hm, hkept k hk]
  rw [← hwhole, ← paired_iff_whole hall hsub]
  constructor
  · intro h
    use fun m hm => (hkept m (mem_of_mem_drop hm)).mp (h.recent m hm),
      fun m hm hpinned => (hkept m hm).mp (h.pinned m hm hpinned), h.paired
  rintro ⟨hrecent, hpinned, hpaired⟩
  use hsub, fun m hm => (hkept m (mem_of_mem_drop hm)).mpr (hrecent m hm),
    fun m hm h => (hkept m hm).mpr (hpinned m hm h), hpaired
  apply partition_removedIds hall.distinct hsub

/-! ### What the policies keep -/

theorem sliceLast_sublist :
  sliceLast keepRecent all <+ all
  := by
  rw [sliceLast]
  split_ifs
  · apply Sublist.refl
  · apply drop_sublist

theorem mem_sliceLast_of_recent {m : Message} (hm : m ∈ all.drop (all.length - keepRecent)) :
  m ∈ sliceLast keepRecent all
  := by
  rw [sliceLast]
  split_ifs
  · apply mem_of_mem_drop hm
  · apply hm

/-- What the default policy keeps. -/
theorem selects_sliceLast_iff (hall : WellPaired ctx.messages) :
  Selects keepRecent ctx.messages (sliceLast keepRecent ctx.messages)
      (removedIds ctx (sliceLast keepRecent ctx.messages)) ↔
    KeepsRecent keepRecent ctx.messages
  := by
  rw [selects_iff_whole hall sliceLast_sublist fun _ _ => Iff.rfl, KeepsRecent]
  simp only [and_iff_right_iff_imp]
  intro _ m
  apply mem_sliceLast_of_recent

variable (policy : SemanticPolicy Number Score)

/-- The policy chooses a message: it is similar to what is looked for, recent or pinned. -/
def SemanticPolicy.Chosen (ctx : ContextCtx) (records : List (Record Number))
    (query : List Number) (m : Message) : Prop :=
  m.id ∈ policy.hits ctx records query ∨ m ∈ sliceLast policy.keepRecent ctx.messages ∨
    isPinned m

/-- The policy that takes over keeps what it should: the default policy every exchange whole and
all that is pinned. -/
def SemanticPolicy.TakesOver (all : List Message) (given : Policy → Prop) : Prop :=
  match policy.fallback with
  | none => KeepsRecent policy.keepRecent all
  | some fallback => given fallback

/-- The choice is right: with something to look for it takes both sides of every exchange or
neither, and without it the policy that takes over keeps what it should. -/
def SemanticPolicy.Meets (ctx : ContextCtx) (found : Option (List (Record Number) × List Number))
    (given : Policy → Prop) : Prop :=
  match found with
  | none => policy.TakesOver ctx.messages given
  | some (_, []) => policy.TakesOver ctx.messages given
  | some (records, query) => Whole (policy.Chosen ctx records query) ctx.messages

variable {policy}

/-- What the policy keeps with something to look for. -/
theorem selects_selectWithIndex_iff (hall : WellPaired ctx.messages)
    {records : List (Record Number)} {query : List Number}
    (h : policy.selectWithIndex ctx records query = some kept) :
  Selects policy.keepRecent ctx.messages kept (removedIds ctx kept) ↔
    Whole (policy.Chosen ctx records query) ctx.messages
  := by
  rw [SemanticPolicy.selectWithIndex] at h
  split_ifs at h
  cases h
  have hchosen : ∀ m ∈ ctx.messages, m ∈ ctx.messages.filter (fun m =>
      (policy.hits ctx records query ++ (sliceLast policy.keepRecent ctx.messages).map Message.id ++
        (ctx.messages.filter isPinned).map Message.id).contains m.id) ↔
      policy.Chosen ctx records query m := by
    intro m hm
    rw [mem_filter, and_iff_right hm, contains_eq_mem, decide_eq_true_iff, mem_append, mem_append,
      mem_of_id_mem hall.distinct sliceLast_sublist hm,
      mem_of_id_mem hall.distinct filter_sublist hm, mem_filter, and_iff_right hm, or_assoc]
    rfl
  rw [selects_iff_whole hall filter_sublist hchosen]
  constructor
  · rintro ⟨-, -, hwhole⟩
    apply hwhole
  intro hwhole
  constructor
  · intro m hm
    right
    left
    apply mem_sliceLast_of_recent hm
  · use fun m _ hpinned => .inr (.inr hpinned), hwhole

/-- The choice is right exactly if what is selected is, or what the policy keeps that takes over. -/
theorem meets_iff (hall : WellPaired ctx.messages)
    (found : Option (List (Record Number) × List Number)) (given : Policy → Prop) :
  policy.Meets ctx found given ↔
    match found.bind fun found => policy.selectWithIndex ctx found.1 found.2 with
    | some messages => Selects policy.keepRecent ctx.messages messages (removedIds ctx messages)
    | none => policy.TakesOver ctx.messages given
  := by
  cases found with
  | none => rfl
  | some found =>
  obtain ⟨records, query⟩ := found
  cases query with
  | nil => rfl
  | cons number query => exact (selects_selectWithIndex_iff hall rfl).symm

/-- A policy that keeps the last messages. -/
def lastOnes (keepRecent : ℕ) : SemanticPolicy ℚ ℚ where
  keepRecent := keepRecent
  topK := 10
  minScore := 0
  fallback := none
  cosine _ _ := none

/-- The sample conversation, in which two tools are used at once. -/
def sampleCtx : ContextCtx where
  messages := sampleConversation
  model := "model"
  maxContextTokens := 1000
  systemTokens := none
  toolSchemaTokens := none

theorem sampleCtx_wellPaired : WellPaired sampleCtx.messages := by
  constructor
  · decide
  · decide
  · decide
  · apply sampleConversation_runnerBuilt.paired

end Context.Semantic
