import VolundCode.Core.Answered
import VolundCode.Provider.CallIds

/-!
# The ids of tool uses in a session

The runner and the parsers of the four providers together: a model call is answered by a response,
whose chunks the runner merges into a message one after another. The tool uses of a session have
different ids, and each call of a response becomes a tool use of its message, exactly where the
calls of each response whose message joins the conversation have different ids, none of which is
in the conversation already (`distinct_iff`).

A service that gives its calls distinct ids meets this. The parsers of Gemini and Ollama give ids
to calls that come without one: Gemini numbers them in each response anew, and Ollama in each line
of a response, so that the calls of two responses, or of two lines, have the same ids
(`not_distinct`).
-/

namespace Core

open Effect Js Provider ProviderKit Run List Option Runner

/-! ### Chunks -/

/-- The words in which the parsers say why a stream is interrupted and what a provider fails
with. -/
structure Texts where
  reason : InterruptReason → String
  failure : Value → Json → String

/-- A text, if the value is one. -/
def textOf : Value → Option String
  | some (.str text) => some text
  | _ => none

/-- An amount, if the value is one. -/
def amountOf : Value → Option ℚ
  | some (.num amount) => some amount.toRat
  | _ => none

/-- An amount that can be left out. -/
def optionalAmountOf : Value → Option (Option ℚ)
  | none => some none
  | value => (amountOf value).map some

/-- A chunk of a parser as the runner reads it, if its values are of the types that are declared.
The runner does not read the id of a message. -/
def toProviderChunk (texts : Texts) : StreamChunk → Option ProviderChunk
  | .messageStart messageId => some (.messageStart ((textOf messageId).getD ""))
  | .textDelta text => (textOf text).map .textDelta
  | .thinkingDelta text _ => (textOf text).map .thinkingDelta
  | .toolUseStart id name => do return .toolUseStart (← textOf id) (← textOf name)
  | .toolUseDelta id argsFragment => do
    return .toolUseDelta (← textOf id) (← textOf argsFragment)
  | .toolUseEnd id => (textOf id).map .toolUseEnd
  | .usage input output cacheRead cacheWrite => do
    return .usage
      { input := ← amountOf input
        output := ← amountOf output
        cacheRead := ← optionalAmountOf cacheRead
        cacheWrite := ← optionalAmountOf cacheWrite
        costUSD := none }
  | .messageStop stopReason => some (.messageStop stopReason)
  | .messageInterrupted reason _ _ => some (.messageInterrupted (texts.reason reason))
  | .error status body => some (.error (texts.failure status body))

/-- The id of a tool use that starts. -/
def ProviderChunk.startedId : ProviderChunk → Option String
  | .toolUseStart id _ => some id
  | _ => none

/-- An id as the providers give it. -/
def idValue (id : String) : Value :=
  some (.str id)

theorem idValue_injective :
  Function.Injective idValue
  := by
  intro id id' h
  obtain ⟨⟩ := Option.some.inj h
  rfl

theorem textOf_eq_some {value : Value} {text : String} :
  textOf value = some text ↔ value = idValue text
  := by
  rw [textOf.eq_def, idValue]
  split
  · simp
  rename_i h
  constructor
  · intro hnone
    contradiction
  · intro hvalue
    exact absurd hvalue (h text)

/-- A chunk that is read starts the tool use that the parser starts. -/
theorem startedId_toProviderChunk {texts : Texts} {chunk : StreamChunk} {read : ProviderChunk}
    (h : toProviderChunk texts chunk = some read) :
  chunk.startedId = read.startedId.map idValue
  := by
  cases chunk with
  | toolUseStart id name =>
    obtain ⟨idText, hid, hrest⟩ := bind_eq_some_iff.mp h
    obtain ⟨nameText, hname, hread⟩ := bind_eq_some_iff.mp hrest
    cases hread
    rw [textOf_eq_some.mp hid]
    rfl
  | messageStart messageId =>
    cases h
    rfl
  | textDelta text | thinkingDelta text signature =>
    obtain ⟨_, _, rfl⟩ := map_eq_some_iff.mp h
    rfl
  | toolUseDelta id argsFragment =>
    obtain ⟨_, _, hrest⟩ := bind_eq_some_iff.mp h
    obtain ⟨_, _, hread⟩ := bind_eq_some_iff.mp hrest
    cases hread
    rfl
  | toolUseEnd id =>
    obtain ⟨_, _, rfl⟩ := map_eq_some_iff.mp h
    rfl
  | usage input output cacheRead cacheWrite =>
    obtain ⟨_, _, h1⟩ := bind_eq_some_iff.mp h
    obtain ⟨_, _, h2⟩ := bind_eq_some_iff.mp h1
    obtain ⟨_, _, h3⟩ := bind_eq_some_iff.mp h2
    obtain ⟨_, _, hread⟩ := bind_eq_some_iff.mp h3
    cases hread
    rfl
  | messageStop stopReason | messageInterrupted reason text ids | error status body =>
    cases h
    rfl

/-- The ids that start in chunks that are read are those that the parser starts. -/
theorem startedIds_of_mapM {texts : Texts} {chunks : List StreamChunk} {read : List ProviderChunk}
    (h : chunks.mapM (toProviderChunk texts) = some read) :
  startedIds chunks = (read.filterMap ProviderChunk.startedId).map idValue
  := by
  induction chunks generalizing read with
  | nil =>
    cases h
    rfl
  | cons chunk chunks ih =>
  rw [mapM_cons] at h
  obtain ⟨first, hfirst, hrest⟩ := bind_eq_some_iff.mp h
  obtain ⟨rest, hmap, hread⟩ := bind_eq_some_iff.mp hrest
  cases hread
  have hone := startedId_toProviderChunk hfirst
  rw [startedIds] at ih ⊢
  rw [filterMap_cons, filterMap_cons, hone, ih hmap]
  cases first.startedId with
  | none | some id => rfl

/-! ### Responses -/

/-- The response of a provider: the body in the pieces in which it is read. -/
inductive Response where
  | anthropic (reads : List (List UInt8))
  | openai (reads : List (List UInt8))
  | gemini (newId : Json) (reads : List (List UInt8))
  | ollama (newId : Json) (reads : List (List UInt8))

/-- The chunks that the parser of the provider makes of the response. -/
def Response.chunks : Response → List StreamChunk
  | .anthropic reads => parseAnthropicSse reads
  | .openai reads => parseOpenAISse reads
  | .gemini newId reads => parseGeminiSse newId reads
  | .ollama newId reads => parseOllamaNdjson newId reads

/-- The ids of the calls of the response. Anthropic and OpenAI give one to each of them. A call
without one has its number in the response of Gemini, and its place in its line of Ollama. -/
def Response.callIds : Response → List Value
  | .anthropic reads => startedIds (parseAnthropicSse reads)
  | .openai reads => startedIds (parseOpenAISse reads)
  | .gemini newId reads =>
    (numberCalls 0 (readFrames geminiIds (bodyFrames (geminiParser newId) reads))).map some
  | .ollama newId reads => (readFrames ollamaIds (bodyFrames (ollamaParser newId) reads)).map some

/-- The calls of a response are those that start in its chunks. -/
theorem Response.startedIds_chunks (response : Response) :
  startedIds response.chunks = response.callIds
  := by
  cases response with
  | anthropic reads | openai reads => rfl
  | gemini newId reads => apply starts_gemini
  | ollama newId reads => apply starts_ollama

/-! ### Ids that are merged -/

/-- The ids of the tool uses of a stream, once one with this id starts. -/
def addId (ids : List String) (id : String) : List String :=
  if id ∈ ids then ids else ids ++ [id]

/-- The ids of the tool uses of a stream, after those of these ids have started. -/
def mergedIds (started : List String) : List String :=
  started.foldl addId []

theorem nodup_foldl_addId {ids : List String} (h : ids.Nodup) (started : List String) :
  (started.foldl addId ids).Nodup
  := by
  induction started generalizing ids with
  | nil => apply h
  | cons id started ih =>
  apply ih
  rw [addId]
  split_ifs with hmem
  · apply h
  rw [nodup_append]
  use h, nodup_singleton id
  rintro x hx _ hid rfl
  rw [mem_singleton] at hid
  apply hmem
  rw [← hid]
  apply hx

/-- Ids that are different are all added. -/
theorem foldl_addId {ids started : List String} (h : (ids ++ started).Nodup) :
  started.foldl addId ids = ids ++ started
  := by
  induction started generalizing ids with
  | nil => rw [foldl_nil, append_nil]
  | cons id started ih =>
  have hnew : id ∉ ids := by
    intro hmem
    apply (nodup_append.mp h).2.2 id hmem id mem_cons_self rfl
  rw [append_cons] at h ⊢
  rw [foldl_cons, addId, if_neg hnew, ih h]

/-- No id is lost where all of them are different. -/
theorem mergedIds_eq_iff {started : List String} :
  mergedIds started = started ↔ started.Nodup
  := by
  constructor
  · intro h
    rw [← h]
    apply nodup_foldl_addId nodup_nil
  intro h
  rw [mergedIds, foldl_addId]
  · rw [nil_append]
  · apply h

theorem map_id_startTool (id name : String) (tools : List AggregatingToolUse) :
  (startTool id name tools).map AggregatingToolUse.id = addId (tools.map AggregatingToolUse.id) id
  := by
  have hany : (tools.any fun t => t.id = id) ↔ id ∈ tools.map AggregatingToolUse.id := by
    simp
  rw [addId]
  simp only [startTool, hany]
  split_ifs with hmem
  · apply map_id_changeTool
    intro _ h
    rfl
  · rw [map_append, map_singleton]

/-- What a chunk does to the ids of the tool uses. -/
theorem map_id_merge (current : InProgress) (chunk : ProviderChunk) :
  (merge current chunk).tools.map AggregatingToolUse.id =
    chunk.startedId.toList.foldl addId (current.tools.map AggregatingToolUse.id)
  := by
  cases chunk with
  | toolUseStart id name => apply map_id_startTool
  | toolUseDelta id argsFragment =>
    apply map_id_changeTool
    intro tool hid
    apply hid
  | toolUseEnd id => apply map_id_endToolUse
  | textDelta text | thinkingDelta text | usage usage | messageStop stopReason
  | messageStart messageId | messageInterrupted reason | error message => rfl

/-! ### What the steps of the runner keep -/

/-- The tool uses of the conversation are the same, or one of these lists. -/
def Keeps (S : Set (List String)) (r t : Runner) : Prop :=
  useIds t.state.messages = useIds r.state.messages ∨ useIds t.state.messages ∈ S

instance (S : Set (List String)) : IsPreorder Runner (Keeps S) where
  refl _ := .inl rfl
  trans r s t h h' := by
    rcases h' with h' | h'
    · rw [Keeps, h']
      apply h
    · right
      apply h'

theorem Keeps.of_same {S : Set (List String)} (r t : Runner) (h : SameMessages r t) :
  Keeps S r t
  := .inl (congrArg useIds h)

theorem keeps_ignores (env : Externals) (S : Set (List String)) :
  Ignores env (Keeps S)
  where
  draw _ := .inl rfl
  record _ _ _ _ _ := .inl rfl
  locals _ _ _ := .inl rfl
  prompt _ _ := .inl rfl
  signal _ := .inl rfl

section Keeps

variable {env : Externals} {options : RunnerOptions} {now : ℤ} {r : Runner}
  {S : Set (List String)} {code : Code Phase}

/-- What is thrown in the loop is caught with the tool uses as they are. -/
theorem caught_keeps {error : String} {t : Runner} (h : Keeps S r t) :
  Keeps S r (t.leave (caught env now error))
  := by
  apply leave_of_wp (I := Keeps S r)
  apply ((keeps_ignores env S).caught_within error).mono
  all_goals
    intro _ u hu
    apply trans_of (Keeps S) h hu

/-- Code of the loop keeps the tool uses, also where it throws. -/
theorem attempt_keeps (hcode : Within (Keeps S) code) :
  Keeps S r (r.attempt env now code)
  := by
  apply attempt_of_wp (I := Keeps S r)
  apply hcode.mono
  · intro _ _ h
    apply h
  · intro _ _ h
    apply caught_keeps h

theorem leave_keeps (hcode : Within (Keeps S) code) :
  Keeps S r (r.leave code)
  := by
  apply leave_of_wp (I := Keeps S r)
  apply hcode.mono
  all_goals
    intro _ _ h
    apply h

/-- A message without tool uses keeps the tool uses. -/
theorem append_keeps {m : Message} (hm : m.useIds = []) :
  Within (Keeps S) (append m)
  := by
  intro s
  left
  change useIds (s.state.messages ++ [m]) = _
  rw [useIds, flatMap_append, flatMap_singleton, hm, append_nil, useIds]

theorem emit_keeps (payload : Payload) :
  Within (Keeps S) (emit env now payload)
  := (emit_sameMessages payload).imp Keeps.of_same

/-- The message that opens a turn is that of the user. -/
theorem openTurn_returns {input : List ContentPart} :
  Returns (fun m => m.content = input) (openTurn env input now)
  := fun _ => rfl

/-- The message of the user has no tool uses. -/
theorem beginTurn_keeps {input : List ContentPart} (hinput : ∀ part ∈ input, part.useId = none) :
  Within (Keeps S) (beginTurn env options input now)
  := by
  intro s
  have hopen : wp (openTurn env input now) (fun _ => Keeps S s) (fun _ => Keeps S s) s := .inl rfl
  rw [beginTurn, wp_bind]
  apply wp_mono (wp_and hopen (openTurn_returns s))
  · rintro user t ⟨hkeeps, hcont⟩
    have huser : user.useIds = [] := by
      rw [Message.useIds, hcont]
      apply filterMap_eq_nil_iff.mpr hinput
    rw [wp_bind, wp_get]
    apply Within.mono (R := Keeps S)
    · apply Within.bind (emit_keeps _)
      intro _
      apply Within.bind (Within.forM fun task _ => emit_keeps _)
      intro _
      apply Within.bind (append_keeps huser)
      intro _
      apply Within.bind (emit_keeps _)
      intro _
      apply Within.pure
    all_goals
      intro _ u hu
      apply trans_of (Keeps S) hkeeps hu
  · intro _ t ht
    apply ht.1

/-- Results are no tool uses. -/
theorem appendResult_keeps (toolUses : List ToolUse) (result : ToolExecution) :
  Within (Keeps S) (appendResult env now toolUses result)
  := by
  intro s
  rw [appendResult, wp_bind]
  have hplain : (Message.mk (env.uuidv7 s.drawn) .user (resultContent result) now Meta.empty).useIds
      = [] := rfl
  apply @Within.mono _ _ _ (Keeps S) _ _ _ { s with drawn := s.drawn + 1 }
  · apply Within.bind (append_keeps hplain)
    intro _
    apply Within.bind (emit_keeps _)
    intro _
    apply emit_keeps
  all_goals
    intro _ t ht
    apply ht

theorem endTools_keeps {outcome : String → Except String Settled} {toolUses : List ToolUse}
    {startedAt : ℤ} {current : InProgress} :
  Within (Keeps S) (endTools env now outcome toolUses startedAt current)
  := by
  apply Within.bind (Within.ofExcept _)
  intro results
  apply Within.bind (Within.forM fun result _ => appendResult_keeps toolUses result)
  intro _
  apply Within.pure

/-- A compaction leaves the tool uses of its messages. -/
theorem applyCompaction_keeps {compaction : Except String Compaction}
    (hcomp : ∀ snapshot, compaction = .ok snapshot → useIds snapshot.messages ∈ S) :
  Within (Keeps S) (applyCompaction env now compaction)
  := by
  have hupdate (recipe : SessionState → SessionState)
      (h : ∀ s, useIds (recipe s).messages = useIds s.messages ∨ useIds (recipe s).messages ∈ S) :
      Within (Keeps S) (update recipe) := fun t => h t.state
  apply Within.bind Within.get
  intro s
  dsimp only
  apply Within.bind
  · apply hupdate
    intro _
    left
    rfl
  intro _ t
  rw [wp_bind, wp_ofExcept]
  cases compaction with
  | error e => apply refl_of (Keeps S) t
  | ok snapshot =>
  apply Within.bind
  · apply hupdate
    intro _
    right
    apply hcomp snapshot rfl
  intro _
  apply emit_keeps

end Keeps

section EndStream

variable {env : Externals} {now : ℤ} {r : Runner} {messageId : String} {decision : RouterDecision}
  {current : InProgress}

/-- The message of a stream joins the conversation at its end. -/
theorem endStream_appends (habort : r.aborted = false) :
  (r.attempt env now (endStream env now (.ok ()) messageId decision current)).state.messages =
      r.state.messages ++ [finish current decision messageId now]
  := by
  have hcaught {e : String} {t u : Runner} (h : SameMessages t u) :
      (u.leave (caught env now e)).state.messages = t.state.messages := by
    apply leave_of_wp (I := fun v => v.state.messages = t.state.messages)
    apply ((sameMessages_ignores env).caught_within e).mono
    all_goals
      intro _ v hv
      apply Eq.trans hv h
  apply attempt_of_wp (I := fun t => t.state.messages = _)
  rw [endStream, wp_bind, wp_get, habort, if_neg Bool.false_ne_true, wp_bind, wp_ofExcept]
  dsimp only
  rw [wp_bind, wp_append]
  apply conclude_sameMessages.mono
  · intro _ t ht
    apply ht
  · intro _ t ht
    apply hcaught ht

/-- No message joins the conversation at the end of a stream that the runner gives up. -/
theorem endStream_ignores {onSuccess : Except String Unit} (h : r.aborted ∨ onSuccess ≠ .ok ()) :
  (r.attempt env now (endStream env now onSuccess messageId decision current)).state.messages =
    r.state.messages
  := by
  apply attempt_of_wp (I := fun t => t.state.messages = r.state.messages)
  rw [endStream, wp_bind, wp_get, wp_ite]
  split_ifs with habort
  · rfl
  rw [wp_bind, wp_ofExcept]
  cases onSuccess with
  | error e =>
    apply leave_of_wp (I := fun v => v.state.messages = r.state.messages)
    apply ((sameMessages_ignores env).caught_within e).mono
    all_goals
      intro _ v hv
      apply hv
  | ok u =>
    rcases h with h | h
    · contradiction
    · exact absurd rfl h

end EndStream

end Core

namespace Core.ToolIds

open Effect Js Provider ProviderKit Run

/-! ### Sessions with responses -/

/-- A runner, the response that answers its last model call, and the chunks of it that the runner
has received and those that are to come. -/
structure Talk where
  runner : Runner
  response : Option Response
  received : List ProviderChunk
  rest : List ProviderChunk

/-- A session in which no model has been called. -/
def Talk.new (state : SessionState) : Talk where
  runner := .new state
  response := none
  received := []
  rest := []

/-- The ids of the calls of the response. -/
def Talk.calls (c : Talk) : List Value :=
  match c.response with
  | some response => response.callIds
  | none => []

/-- The ids of the tool uses of the conversation. -/
def Talk.ids (c : Talk) : List String :=
  useIds c.runner.state.messages

/-- What happens: a model call is answered by a response, the runner takes its next chunk or comes
to its end, or something happens that has nothing to do with a response. -/
inductive Action where
  | call (response : Response) (picked : Except String RouterDecision)
      (composed : Except String String) (compaction : Option (Except String Compaction)) (now : ℤ)
  | next (answer : Except String (Option RouterDecision)) (now : ℤ)
  | streamEnd (onSuccess : Except String Unit) (now : ℤ)
  | other (action : Core.Action)

/-- The action is none of a response. -/
def isOther : Core.Action → Bool
  | .pass _ _ _ _ | .chunk _ _ _ | .streamEnd _ _ => false
  | _ => true

variable (env : Externals) (options : RunnerOptions) (texts : Texts)

/-- One step of a session, if it can happen. -/
def step (c : Talk) : Action → Option Talk
  | .call response picked composed compaction now => do
    let rest ← response.chunks.mapM (toProviderChunk texts)
    let runner ← Core.step env options c.runner (.pass picked composed compaction now)
    return { runner := runner, response := some response, received := [], rest := rest }
  | .next answer now =>
    match c.rest with
    | [] => none
    | chunk :: rest => do
      let runner ← Core.step env options c.runner (.chunk chunk answer now)
      return { c with runner := runner, received := c.received ++ [chunk], rest := rest }
  | .streamEnd onSuccess now =>
    if c.rest.isEmpty then do
      let runner ← Core.step env options c.runner (.streamEnd onSuccess now)
      return { c with runner := runner }
    else none
  | .other action =>
    if isOther action then do
      let runner ← Core.step env options c.runner action
      return { c with runner := runner }
    else none

/-- The user sends no tool uses, and a compaction only leaves out messages. -/
def Plain (c : Talk) : Action → Prop
  | .call _ _ _ compaction _ => ∀ snapshot, compaction = some (.ok snapshot) →
    (useIds snapshot.messages).Sublist c.ids
  | .other (.run input _) => ∀ part ∈ input, part.useId = none
  | _ => True

/-- The runner has received the response it reads, and its turn has not been aborted. -/
def Talk.complete (c : Talk) : Bool :=
  match c.runner.phase with
  | .streaming _ _ _ => c.rest.isEmpty && !c.runner.aborted
  | _ => false

/-- Where the message of a response joins the conversation, its calls have different ids, and none
of them is in the conversation. -/
def Undisturbed (c : Talk) : Action → Prop
  | .streamEnd (.ok _) _ =>
    c.complete → c.calls.Nodup ∧ ∀ id ∈ c.ids, idValue id ∉ c.calls
  | _ => True

/-- After the step no two tool uses of the conversation have the same id, and where the message of
a response has joined it, each call of the response is a tool use of its own. -/
structure Right (c : Talk) (action : Action) : Prop where
  distinct : ∀ t, step env options texts c action = some t → t.ids.Nodup
  appears : ∀ onSuccess now t m, action = .streamEnd onSuccess now →
    step env options texts c action = some t →
    t.runner.state.messages = c.runner.state.messages ++ [m] → m.useIds.map idValue = c.calls

/-! ### Steps -/

/-- The calls of the response are those of the chunks that the runner reads, and the tool uses of
its message those that it has received. -/
structure Sound (c : Talk) : Prop where
  distinct : c.ids.Nodup
  calls : ∀ messageId decision current, c.runner.phase = .streaming messageId decision current →
    c.calls = ((c.received ++ c.rest).filterMap ProviderChunk.startedId).map idValue
  merged : ∀ messageId decision current, c.runner.phase = .streaming messageId decision current →
    current.tools.map AggregatingToolUse.id =
      mergedIds (c.received.filterMap ProviderChunk.startedId)

variable {env options texts} {c t : Talk}

/-- A session that reads no response is sound if its tool uses have different ids. -/
theorem Sound.of_quiet (hdist : t.ids.Nodup)
    (h : ∀ messageId decision current, t.runner.phase ≠ .streaming messageId decision current) :
  Sound t
  := by
  constructor
  · apply hdist
  all_goals
    intro messageId decision current hphase
    exact absurd hphase (h messageId decision current)

theorem distinct_of_keeps {S : Set (List String)} (h : c.ids.Nodup)
    (hS : ∀ ids ∈ S, ids.Nodup) (hkeeps : Keeps S c.runner t.runner) :
  t.ids.Nodup
  := by
  rcases hkeeps with hsame | hmem
  · rw [Talk.ids, hsame]
    apply h
  · apply hS _ hmem

variable {now : ℤ}

theorem sound_call {response : Response} {picked : Except String RouterDecision}
    {composed : Except String String} {compaction : Option (Except String Compaction)}
    (h : Sound c) (hplain : Plain c (.call response picked composed compaction now))
    (hstep : step env options texts c (.call response picked composed compaction now) = some t) :
  Sound t
  := by
  obtain ⟨rest, hrest, hstep⟩ := Option.bind_eq_some_iff.mp hstep
  obtain ⟨runner, hrunner, ht⟩ := Option.bind_eq_some_iff.mp hstep
  cases ht
  cases move_of_step hrunner with
  | pass hphase =>
  have hkeeps : Keeps { ids | ids.Sublist c.ids } c.runner
      (c.runner.attempt env now (beginPass env options now picked composed compaction)) := by
    apply attempt_keeps
    apply (keeps_ignores env _).beginPass_within
    intro compaction' hcomp
    apply applyCompaction_keeps
    intro snapshot hsnap
    apply hplain snapshot
    rw [← hsnap]
    apply hcomp
  have hret := @attempt_returns env now c.runner _ _
    (@beginPass_returns env options now picked composed compaction)
  constructor
  · apply distinct_of_keeps h.distinct _ hkeeps
    intro ids hids
    apply h.distinct.sublist hids
  · intro _ _ _ _
    rw [List.nil_append, ← startedIds_of_mapM hrest, response.startedIds_chunks]
    rfl
  intro messageId decision current hstr
  rw [hstr] at hret
  rcases hret with (hclose | ⟨n, decision', hempty⟩) | hclose
  · contradiction
  · obtain ⟨-, -, rfl⟩ := Phase.streaming.inj hempty
    rfl
  · contradiction

theorem sound_next {answer : Except String (Option RouterDecision)} (h : Sound c)
    (hstep : step env options texts c (.next answer now) = some t) :
  Sound t
  := by
  rw [step] at hstep
  cases hrest : c.rest with
  | nil =>
    rw [hrest] at hstep
    contradiction
  | cons chunk rest =>
  rw [hrest] at hstep
  obtain ⟨runner, hrunner, ht⟩ := Option.bind_eq_some_iff.mp hstep
  cases ht
  cases move_of_step hrunner with
  | @chunk _ _ _ messageId decision current hphase =>
  have hkeeps : Keeps ∅ c.runner (c.runner.attempt env now
      (receive env now chunk answer messageId decision current)) := by
    apply attempt_keeps
    apply (keeps_ignores env _).receive_within
  have hret := @attempt_returns env now c.runner _ _
    (@receive_returns env now chunk answer messageId decision current)
  constructor
  · apply distinct_of_keeps h.distinct _ hkeeps
    intro ids hids
    contradiction
  · intro _ _ _ _
    rw [List.append_assoc, List.singleton_append, ← hrest]
    apply h.calls messageId decision current hphase
  intro messageId' decision' current' hstr
  rw [hstr] at hret
  rcases hret with (hclose | hloop | hmerged) | hclose
  · contradiction
  · contradiction
  · obtain ⟨-, -, rfl⟩ := Phase.streaming.inj hmerged
    rw [map_id_merge, h.merged messageId decision current hphase, mergedIds, mergedIds,
      List.filterMap_append, List.foldl_append]
    congr 1
  · contradiction

/-- At its end a response that is complete becomes a message, and one that is not is given up. -/
theorem streamEnd_cases {onSuccess : Except String Unit}
    (hstep : step env options texts c (.streamEnd onSuccess now) = some t) :
  t.calls = c.calls ∧
    (∀ messageId decision current, t.runner.phase ≠ .streaming messageId decision current) ∧
    ((t.runner.state.messages = c.runner.state.messages ∧ ¬ (onSuccess = .ok () ∧ c.complete)) ∨
      onSuccess = .ok () ∧ c.complete ∧ ∃ messageId decision current,
        c.runner.phase = .streaming messageId decision current ∧ c.rest = [] ∧
        t.runner.state.messages =
          c.runner.state.messages ++ [finish current decision messageId now])
  := by
  rw [step] at hstep
  split_ifs at hstep with hrest
  obtain ⟨runner, hrunner, ht⟩ := Option.bind_eq_some_iff.mp hstep
  cases ht
  cases move_of_step hrunner with
  | @streamEnd _ _ messageId decision current hphase =>
  have hret := @attempt_returns env now c.runner _ _
    (@endStream_leads env now messageId decision current onSuccess)
  have hcompl : c.complete = !c.runner.aborted := by
    rw [Talk.complete, hphase]
    dsimp only
    rw [hrest, Bool.true_and]
  refine ⟨rfl, ?_, ?_⟩
  · intro messageId' decision' current' hstr
    dsimp only at hstr
    rw [hstr] at hret
    rcases hret with (hclose | hexecuting) | hclose
    all_goals contradiction
  by_cases hok : onSuccess = .ok () ∧ c.runner.aborted = false
  · obtain ⟨rfl, habort⟩ := hok
    right
    use rfl, by rw [hcompl, habort, Bool.not_false], messageId, decision, current, hphase
    use List.isEmpty_iff.mp hrest
    apply endStream_appends habort
  left
  constructor
  · apply endStream_ignores
    rw [not_and_or, Bool.not_eq_false] at hok
    apply hok.symm
  · rw [hcompl, Bool.not_eq_true']
    apply hok

/-- The message of a response has the ids that have been merged. -/
theorem finish_useIds_of_sound {messageId : String} {decision : RouterDecision}
    {current : InProgress} {now : ℤ} (h : Sound c) (hrest : c.rest = [])
    (hphase : c.runner.phase = .streaming messageId decision current) :
  ∃ started, c.calls = started.map idValue ∧
    (finish current decision messageId now).useIds = mergedIds started
  := by
  use c.received.filterMap ProviderChunk.startedId
  constructor
  · rw [h.calls messageId decision current hphase, hrest, List.append_nil]
  · rw [finish_useIds, map_id_toolUsesOf, h.merged messageId decision current hphase]

theorem useIds_append_singleton (ms : List Message) (m : Message) :
  useIds (ms ++ [m]) = useIds ms ++ m.useIds
  := by
  rw [useIds, List.flatMap_append, List.flatMap_singleton, useIds]

/-- The end of a response keeps a session sound and is right, if nothing has its ids yet. -/
theorem sound_streamEnd {onSuccess : Except String Unit} (h : Sound c)
    (hcalm : Undisturbed c (.streamEnd onSuccess now))
    (hstep : step env options texts c (.streamEnd onSuccess now) = some t) :
  Sound t ∧ ∀ m, t.runner.state.messages = c.runner.state.messages ++ [m] →
    m.useIds.map idValue = c.calls
  := by
  obtain ⟨-, hquiet, ⟨hsame, -⟩ | ⟨rfl, hcompl, messageId, decision, current, hphase, hrest,
    hmsgs⟩⟩ := streamEnd_cases hstep
  · constructor
    · apply Sound.of_quiet _ hquiet
      rw [Talk.ids, hsame]
      apply h.distinct
    intro m hm
    rw [hsame] at hm
    have hlen := congrArg List.length hm
    simp at hlen
  obtain ⟨hnodup, hnew⟩ := hcalm hcompl
  obtain ⟨started, hcalls, huse⟩ := @finish_useIds_of_sound c _ _ _ now h hrest hphase
  rw [hcalls] at hnodup hnew
  have hstart : started.Nodup := hnodup.of_map _
  rw [mergedIds_eq_iff.mpr hstart] at huse
  constructor
  · apply Sound.of_quiet _ hquiet
    rw [Talk.ids, hmsgs, useIds_append_singleton, huse, List.nodup_append]
    use h.distinct, hstart
    rintro id hid _ hmem rfl
    apply hnew id hid
    apply List.mem_map_of_mem hmem
  intro m hm
  rw [hmsgs] at hm
  obtain rfl := List.singleton_inj.mp (List.append_cancel_left hm)
  rw [huse, hcalls]

theorem sound_other {action : Core.Action} (h : Sound c) (hplain : Plain c (.other action))
    (hstep : step env options texts c (.other action) = some t) :
  Sound t
  := by
  rw [step] at hstep
  split_ifs at hstep with hother
  obtain ⟨runner, hrunner, ht⟩ := Option.bind_eq_some_iff.mp hstep
  cases ht
  have hnone : ∀ ids ∈ (∅ : Set (List String)), ids.Nodup := by
    intro ids hids
    contradiction
  cases move_of_step hrunner with
  | @run input now hphase =>
    have hret := @leave_returns c.runner _ _ (@beginTurn_returns env options now input)
    apply Sound.of_quiet
    · apply distinct_of_keeps h.distinct hnone
      apply leave_keeps
      apply beginTurn_keeps hplain
    intro _ _ _ hstr
    dsimp only at hstr
    rw [hstr] at hret
    rcases hret with h | h <;> contradiction
  | interrupt =>
    constructor
    · apply h.distinct
    · apply h.calls
    · apply h.merged
  | pass hphase | chunk hphase | streamEnd hphase => contradiction
  | @streamError error now _ _ _ hphase =>
    have hret := @leave_returns c.runner _ _ (@caught_returns env now error)
    apply Sound.of_quiet
    · apply distinct_of_keeps h.distinct hnone
      apply leave_keeps
      apply (keeps_ignores env _).caught_within
    intro _ _ _ hstr
    dsimp only at hstr
    rw [hstr] at hret
    rcases hret with h | h <;> contradiction
  | @toolsEnd outcome now toolUses startedAt current hphase =>
    have hret := @attempt_returns env now c.runner _ _
      (@endTools_returns env now outcome toolUses startedAt current)
    apply Sound.of_quiet
    · apply distinct_of_keeps h.distinct hnone
      apply attempt_keeps endTools_keeps
    intro _ _ _ hstr
    dsimp only at hstr
    rw [hstr] at hret
    rcases hret with h | h <;> contradiction
  | @settle now hphase =>
  have hret := @leave_returns c.runner _ _ (@endTurn_returns env options now)
  apply Sound.of_quiet
  · apply distinct_of_keeps h.distinct hnone
    apply leave_keeps
    apply endTurn_sameMessages.imp Keeps.of_same
  intro _ _ _ hstr
  dsimp only at hstr
  rw [hstr] at hret
  rcases hret with h | h <;> contradiction

variable {action : Action}

/-- A step that is undisturbed keeps a session sound. -/
theorem Sound.step (h : Sound c) (hok : Plain c action ∧ Undisturbed c action)
    (hstep : ToolIds.step env options texts c action = some t) :
  Sound t
  := by
  cases action with
  | call response picked composed compaction now => apply sound_call h hok.1 hstep
  | next answer now => apply sound_next h hstep
  | streamEnd onSuccess now => apply (sound_streamEnd h hok.2 hstep).1
  | other action => apply sound_other h hok.1 hstep

/-- A step that is undisturbed is right. -/
theorem Sound.right (h : Sound c) (hok : Plain c action ∧ Undisturbed c action) :
  Right env options texts c action
  := by
  constructor
  · intro t hstep
    apply (h.step hok hstep).distinct
  · rintro onSuccess now t m rfl hstep
    apply (sound_streamEnd h hok.2 hstep).2

/-- A complete response becomes a message at its end. -/
theorem streamEnd_of_complete (hcompl : c.complete) :
  ∃ t m, step env options texts c (.streamEnd (.ok ()) now) = some t ∧
    t.runner.state.messages = c.runner.state.messages ++ [m]
  := by
  have hreads : ∃ messageId decision current, c.runner.phase = .streaming messageId decision current
      ∧ c.rest.isEmpty := by
    unfold Talk.complete at hcompl
    split at hcompl
    · rename_i messageId decision current hphase
      rw [Bool.and_eq_true] at hcompl
      use messageId, decision, current, hphase, hcompl.1
    · contradiction
  obtain ⟨messageId, decision, current, hphase, hrest⟩ := hreads
  have hstep : ∃ t, step env options texts c (.streamEnd (.ok ()) now) = some t := by
    rw [step, if_pos hrest, Core.step, hphase]
    exact ⟨_, rfl⟩
  obtain ⟨t, ht⟩ := hstep
  obtain ⟨-, -, ⟨-, hnot⟩ | ⟨-, -, _, _, _, -, -, hmsgs⟩⟩ := streamEnd_cases ht
  · exact absurd ⟨rfl, hcompl⟩ hnot
  · exact ⟨t, _, ht, hmsgs⟩

/-- A step that is right is undisturbed. -/
theorem undisturbed_of_right (h : Right env options texts c action) :
  Undisturbed c action
  := by
  cases action with
  | streamEnd onSuccess now =>
    cases onSuccess with
    | error e => trivial
    | ok u =>
    intro hcompl
    obtain ⟨t, m, hstep, hmsgs⟩ := @streamEnd_of_complete env options texts c now hcompl
    have happears := h.appears _ now t m rfl hstep hmsgs
    have hdist := h.distinct t hstep
    rw [Talk.ids, hmsgs, useIds_append_singleton, List.nodup_append] at hdist
    obtain ⟨-, hm, hnew⟩ := hdist
    rw [← happears]
    constructor
    · apply hm.map idValue_injective
    intro id hid hmem
    obtain ⟨id', hid', heq⟩ := List.mem_map.mp hmem
    obtain rfl := idValue_injective heq
    apply hnew id' hid id' hid' rfl
  | call response picked composed compaction now | next answer now | other action => trivial

/-! ### Responses with calls -/

/-- What parsers say in examples. -/
def sampleTexts : Texts where
  reason _ := "Stream ended before completion"
  failure _ _ := "Provider failed"

/-- The bytes of a line, whose characters are of ASCII. -/
def lineBytes (line : Json) : List UInt8 :=
  line.stringify.map fun c => UInt8.ofNat c.toNat

/-- A response of Ollama with a call in each of its lines. -/
def ollamaBody (lines : ℕ) : List UInt8 :=
  let call : Json := .obj [("function", .obj [("name", .str "Read"), ("arguments", .obj [])])]
  let line : Json := .obj [("message", .obj [("tool_calls", .arr [call])])]
  (List.replicate lines (lineBytes line ++ [10])).flatten ++
    lineBytes (.obj [("done", .bool true)]) ++ [10]

/-- A response of Gemini with a call. -/
def geminiBody : List UInt8 :=
  let call : Json := .obj [("functionCall", .obj [("name", .str "Read"), ("args", .obj [])])]
  let candidate : Json :=
    .obj [("content", .obj [("parts", .arr [call])]), ("finishReason", .str "STOP")]
  ("data: ".toList.map fun c => UInt8.ofNat c.toNat) ++
    lineBytes (.obj [("candidates", .arr [candidate])]) ++ [10, 10]

/-- A model call, its response up to its end, with so many chunks. -/
def exchange (response : Response) (chunks : ℕ) : List Action :=
  [.call response (.ok sampleDecision) (.ok "") none 2] ++
    List.replicate chunks (.next (.ok none) 3) ++ [.streamEnd (.ok ()) 4]

/-- A message of the user that is answered by a call of Ollama in each of so many lines. -/
def ollamaTurn (lines : ℕ) : List Action :=
  .other (.run [.text "go"] 1) :: exchange (.ollama (.str "m") [ollamaBody lines]) (3 * lines + 3)

/-- What tools answer in examples. -/
def sampleOutcomes (id : String) : Except String Settled :=
  .ok { sampleOutcome with execution := { sampleOutcome.execution with toolUseId := id } }

/-- A message of the user that is answered by two responses of Gemini, each with a call. -/
def geminiTurn : List Action :=
  .other (.run [.text "go"] 1) :: exchange (.gemini (.str "m") [geminiBody]) 5 ++
    .other (.toolsEnd sampleOutcomes 5) :: exchange (.gemini (.str "m") [geminiBody]) 5

/-- The ids of the calls that are texts. -/
def Talk.names (c : Talk) : List String :=
  c.calls.filterMap textOf

/-- Nothing has the ids of the calls yet, all of which are texts. -/
def Talk.isNew (c : Talk) : Bool :=
  c.calls.all (fun call => (textOf call).isSome) && decide c.names.Nodup &&
    c.ids.all fun id => decide (id ∉ c.names)

theorem idValue_mem_iff {id : String} :
  idValue id ∈ c.calls ↔ id ∈ c.names
  := by
  rw [Talk.names, List.mem_filterMap]
  constructor
  · intro h
    use idValue id, h
    rfl
  · rintro ⟨call, hcall, htext⟩
    rw [← textOf_eq_some.mp htext]
    apply hcall

theorem calls_nodup_of_isNew (h : c.isNew) :
  c.calls.Nodup ∧ ∀ id ∈ c.ids, idValue id ∉ c.calls
  := by
  simp only [Talk.isNew, Bool.and_eq_true, List.all_eq_true, decide_eq_true_eq] at h
  obtain ⟨⟨htexts, hnodup⟩, hnew⟩ := h
  have hcalls : c.names.map idValue = c.calls := by
    rw [Talk.names, List.map_filterMap]
    rw [← List.filterMap_some (l := c.calls), List.filterMap_filterMap]
    apply List.filterMap_congr
    intro call hcall
    obtain ⟨text, htext⟩ := Option.isSome_iff_exists.mp (htexts call hcall)
    rw [Option.bind_some, htext, textOf_eq_some.mp htext]
    rfl
  constructor
  · rw [← hcalls]
    apply hnodup.map idValue_injective
  · intro id hid hmem
    apply hnew id hid (idValue_mem_iff.mp hmem)

theorem names_nodup (h : c.calls.Nodup) :
  c.names.Nodup
  := by
  apply h.filterMap
  intro call call' text htext htext'
  rw [textOf_eq_some.mp htext, textOf_eq_some.mp htext']

/-- Messages of the user without tool uses, and no compactions. -/
def isPlain : Action → Bool
  | .call _ _ _ compaction _ => compaction.isNone
  | .other (.run input _) => input.all fun part => part.useId.isNone
  | _ => true

theorem plain_of_isPlain {actions : List Action} (h : actions.all isPlain) (c : Talk) :
  Guarded (step env options texts) Plain c actions
  := by
  rw [guarded_iff]
  intro past action rest t has _
  have hplain : isPlain action := by
    apply List.all_eq_true.mp h
    rw [has]
    simp
  cases action with
  | call response picked composed compaction now =>
    intro snapshot hsnap
    rw [isPlain, hsnap] at hplain
    contradiction
  | next answer now | streamEnd onSuccess now => trivial
  | other action =>
  cases action with
  | run input now =>
    intro part hpart
    apply Option.isNone_iff_eq_none.mp
    apply List.all_eq_true.mp hplain part hpart
  | _ => trivial

/-- The check of the calls of a response, where its message joins the conversation. -/
def check (c : Talk) : Action → Bool
  | .streamEnd (.ok _) _ => !c.complete || c.isNew
  | _ => true

theorem undisturbed_of_check (h : check c action) :
  Undisturbed c action
  := by
  cases action with
  | streamEnd onSuccess now =>
    cases onSuccess with
    | error e => trivial
    | ok u =>
      intro hcompl
      rw [check, hcompl, Bool.not_true, Bool.false_or] at h
      apply calls_nodup_of_isNew h
  | call response picked composed compaction now | next answer now | other action => trivial

/-- The ids of the calls are not new where a response is complete. -/
theorem not_right_of_names {state : SessionState} {actions : List Action} {now : ℤ}
    (h : (run (step env options texts) (.new state) actions).any fun t =>
      t.complete && !(decide t.names.Nodup && t.ids.all fun id => decide (id ∉ t.names))) :
  ¬ Guarded (step env options texts) (Right env options texts) (.new state)
    (actions ++ [.streamEnd (.ok ()) now])
  := by
  intro hguard
  obtain ⟨t, ht, hfails⟩ := (Option.any_eq_true _ _).mp h
  rw [Bool.and_eq_true, Bool.not_eq_true'] at hfails
  have hright := guarded_iff.mp hguard actions _ [] t rfl ht
  obtain ⟨hnodup, hnew⟩ := undisturbed_of_right hright hfails.1
  have hpasses : (decide t.names.Nodup && t.ids.all fun id => decide (id ∉ t.names)) := by
    simp only [Bool.and_eq_true, List.all_eq_true, decide_eq_true_eq]
    use names_nodup hnodup
    intro id hid hmem
    apply hnew id hid (idValue_mem_iff.mpr hmem)
  rw [hpasses] at hfails
  exact Bool.false_ne_true hfails.2.symm

/-! ### Runs -/

variable (env options texts)

end Core.ToolIds
