import VolundCode.Core.Frame

/-!
# Answered tool calls

Between two runs, every tool use of the conversation has one result with its id, after its
message and before the next message of the assistant, and no other results are there
(`Answered`), if every tool that is executed answers and the events of a message with tools
meet their contracts (`answered_of_conforming`). A tool that rejects leaves the tool uses of its
message without results (`not_answered`).
-/

namespace Core

open ProviderKit Effect Run List Runner Bool

/-! ### Answered conversations -/

/-- The messages up to the next one of the assistant. -/
def segment (ms : List Message) : List Message :=
  ms.takeWhile fun m => m.role ≠ .assistant

/-- Every tool use is in a message of the assistant, and its id is that of one result before the
next such message; every result is one of these. -/
structure Answered (ms : List Message) : Prop where
  uses : ∀ {past : List Message} {m : Message} {rest : List Message}, ms = past ++ m :: rest →
    ∀ id ∈ m.useIds, m.role = .assistant ∧ m.useIds.count id = 1 ∧
      (resultIds (segment rest)).count id = 1
  results : ∀ {past : List Message} {m : Message} {rest : List Message}, ms = past ++ m :: rest →
    ∀ id ∈ m.resultIds, ∃ earlier a between, past = earlier ++ a :: between ∧
      a.role = .assistant ∧ id ∈ a.useIds ∧ ∀ k ∈ between, k.role ≠ .assistant

/-- A message without tool uses or results. -/
def Plain (m : Message) : Prop :=
  m.useIds = [] ∧ m.resultIds = []

/-- A list that ends in one more element is a prefix and a rest that is empty or ends in it. -/
theorem append_singleton_eq_append_cons {α : Type} {xs past rest : List α} {x y : α}
    (h : xs ++ [x] = past ++ y :: rest) :
  (xs = past ∧ x = y ∧ rest = []) ∨ ∃ rest', rest = rest' ++ [x] ∧ xs = past ++ y :: rest'
  := by
  induction rest using List.reverseRecOn with
  | nil =>
    left
    have h' : xs ++ [x] = past ++ [y] := h
    obtain ⟨hxs, hx⟩ := append_inj' h' rfl
    use hxs, singleton_inj.mp hx
  | append_singleton rest z _ =>
  right
  have h' : xs ++ [x] = (past ++ y :: rest) ++ [z] := by simpa using h
  obtain ⟨hxs, hx⟩ := append_inj' h' rfl
  use rest, by rw [singleton_inj.mp hx]

@[simp]
theorem resultIds_append (xs ys : List Message) :
  resultIds (xs ++ ys) = resultIds xs ++ resultIds ys
  := flatMap_append

/-- A message without results adds none to a segment. -/
theorem resultIds_segment_append {xs : List Message} {m : Message} (hm : m.resultIds = []) :
  resultIds (segment (xs ++ [m])) = resultIds (segment xs)
  := by
  induction xs with
  | nil =>
    rw [nil_append, segment, takeWhile_cons]
    split_ifs
    · simp [resultIds, segment, hm]
    · rfl
  | cons x xs ih =>
  rw [cons_append, segment, segment, takeWhile_cons, takeWhile_cons]
  split_ifs
  · rw [resultIds, flatMap_cons, resultIds, flatMap_cons]
    congr 1
  · rfl

/-- A segment ends before a message of the assistant. -/
theorem segment_append_assistant {xs ys : List Message} {a : Message} (ha : a.role = .assistant) :
  segment (xs ++ a :: ys) = segment xs
  := by
  induction xs with
  | nil => simp [segment, ha]
  | cons x xs ih =>
  rw [cons_append, segment, segment, takeWhile_cons, takeWhile_cons]
  split_ifs
  · rw [← segment, ih, segment]
  · rfl

namespace Answered

theorem nil :
  Answered []
  := by
  constructor
  all_goals
    intro past m rest h
    simp at h

/-- A message without tool uses or results leaves a conversation answered. -/
theorem append_plain {ms : List Message} {m : Message} (hms : Answered ms) (hm : Plain m) :
  Answered (ms ++ [m])
  := by
  constructor
  · intro past k rest h id hid
    obtain ⟨-, rfl, -⟩ | ⟨rest', rfl, heq⟩ := append_singleton_eq_append_cons h
    · simp [hm.1] at hid
    · obtain ⟨hrole, huse, hcount⟩ := hms.uses heq id hid
      use hrole, huse
      rw [resultIds_segment_append hm.2, hcount]
  intro past k rest h id hid
  obtain ⟨-, rfl, -⟩ | ⟨rest', -, heq⟩ := append_singleton_eq_append_cons h
  · simp [hm.2] at hid
  · apply hms.results heq id hid

/-- A message of the assistant and the results of its tool uses leave a conversation
answered. -/
theorem append_exchange {ms rs : List Message} {a : Message} (hms : Answered ms)
    (ha : a.role = .assistant) (hress : a.resultIds = []) (hdist : a.useIds.Nodup)
    (hrole : ∀ r ∈ rs, r.role ≠ .assistant) (huses : ∀ r ∈ rs, r.useIds = [])
    (hanswers : resultIds rs = a.useIds) :
  Answered (ms ++ a :: rs)
  := by
  have hsegment : segment rs = rs := by
    rw [segment, takeWhile_eq_self_iff]
    intro r hr
    simpa using hrole r hr
  constructor
  · intro past k rest h id hid
    rcases append_eq_append_iff.mp h with ⟨mid, hpast, hrest⟩ | ⟨mid, hms', hrest⟩
    · cases mid with
      | nil =>
        obtain ⟨rfl, rfl⟩ := List.cons.inj hrest
        use ha, count_eq_one_of_mem hdist hid
        rw [hsegment, hanswers, count_eq_one_of_mem hdist hid]
      | cons x mid =>
        have hk : k ∈ rs := by
          rw [(List.cons.inj hrest).2]
          simp
        simp [huses k hk] at hid
    cases mid with
    | nil =>
      obtain ⟨rfl, rfl⟩ := List.cons.inj hrest
      use ha, count_eq_one_of_mem hdist hid
      rw [hsegment, hanswers, count_eq_one_of_mem hdist hid]
    | cons x mid =>
    obtain ⟨rfl, hrest'⟩ := List.cons.inj hrest
    obtain ⟨hk, huse, hcount⟩ := hms.uses hms' id hid
    use hk, huse
    rw [hrest', List.append_eq, segment_append_assistant ha, hcount]
  intro past k rest h id hid
  rcases append_eq_append_iff.mp h with ⟨mid, hpast, hrest⟩ | ⟨mid, hms', hrest⟩
  · cases mid with
    | nil =>
      obtain ⟨rfl, rfl⟩ := List.cons.inj hrest
      simp [hress] at hid
    | cons x mid =>
      obtain ⟨rfl, hrs⟩ := List.cons.inj hrest
      use ms, a, mid, hpast, ha
      constructor
      · rw [← hanswers, hrs]
        apply mem_resultIds.mpr
        use k, by simp
      intro r hr
      apply hrole r
      rw [hrs]
      apply mem_append_left _ hr
  cases mid with
  | nil =>
    obtain ⟨rfl, rfl⟩ := List.cons.inj hrest
    simp [hress] at hid
  | cons x mid =>
    obtain ⟨rfl, rfl⟩ := List.cons.inj hrest
    apply hms.results hms' id hid

end Answered

/-! ### The messages of the runner -/

/-- The tool uses of a finished message are those of its stream. -/
theorem finish_useIds (current : InProgress) (decision : RouterDecision) (messageId : String)
    (now : ℤ) :
  (finish current decision messageId now).useIds = (toolUsesOf current).map ToolUse.id
  := by
  have hparts : ((toolUsesOf current).map ToolUse.part).filterMap ContentPart.useId =
      (toolUsesOf current).map ToolUse.id := by
    rw [filterMap_map, ← filterMap_eq_map]
    rfl
  simp only [Message.useIds, finish, filterMap_append, hparts]
  split_ifs <;> rfl

/-- A finished message has no results. -/
theorem finish_resultIds (current : InProgress) (decision : RouterDecision) (messageId : String)
    (now : ℤ) :
  (finish current decision messageId now).resultIds = []
  := by
  have hparts : ((toolUsesOf current).map ToolUse.part).filterMap ContentPart.resultId = [] := by
    rw [filterMap_map, filterMap_eq_nil_iff]
    intro tool _
    rfl
  simp only [Message.resultIds, finish, filterMap_append, hparts]
  split_ifs <;> rfl

/-- Changing a tool use keeps the ids if the change keeps that of the tool use. -/
theorem map_id_changeTool {id : String} {f : AggregatingToolUse → AggregatingToolUse}
    (hf : ∀ tool, tool.id = id → (f tool).id = id) (tools : List AggregatingToolUse) :
  (changeTool id f tools).map AggregatingToolUse.id = tools.map AggregatingToolUse.id
  := by
  induction tools with
  | nil => rfl
  | cons tool tools ih =>
  rw [changeTool]
  split_ifs with h
  · rw [map_cons, map_cons, hf tool h, h]
  · rw [map_cons, map_cons, ih]

theorem finalize_id (tool : AggregatingToolUse) :
  tool.finalize.id = tool.id
  := by
  rw [AggregatingToolUse.finalize]
  split_ifs
  · rfl
  · rfl

theorem map_id_endToolUse (current : InProgress) (id : String) :
  (endToolUse current id).tools.map AggregatingToolUse.id = current.tools.map AggregatingToolUse.id
  := by
  rw [endToolUse]
  split
  · rfl
  · apply map_id_changeTool
    intro tool h
    rw [finalize_id, h]

theorem map_id_foldl_endToolUse (tools : List AggregatingToolUse) (current : InProgress) :
  (tools.foldl (fun c tool => endToolUse c tool.id) current).tools.map AggregatingToolUse.id =
    current.tools.map AggregatingToolUse.id
  := by
  induction tools generalizing current with
  | nil => rfl
  | cons tool tools ih => rw [foldl_cons, ih, map_id_endToolUse]

/-- Ending the tool uses of a stream keeps their ids. -/
theorem map_id_endAll (current : InProgress) :
  (endAll current).tools.map AggregatingToolUse.id = current.tools.map AggregatingToolUse.id
  := map_id_foldl_endToolUse current.tools current

/-- The ids of the tool uses of a message are those of its stream. -/
theorem map_id_toolUsesOf (current : InProgress) :
  (toolUsesOf current).map ToolUse.id = current.tools.map AggregatingToolUse.id
  := by
  rw [toolUsesOf, map_map, ← map_id_endAll]
  rfl

/-- No two tool uses of a stream have the same id. -/
def InProgress.Distinct (current : InProgress) : Prop :=
  (current.tools.map AggregatingToolUse.id).Nodup

theorem distinct_startTool {id name : String} {tools : List AggregatingToolUse}
    (h : (tools.map AggregatingToolUse.id).Nodup) :
  ((startTool id name tools).map AggregatingToolUse.id).Nodup
  := by
  simp only [startTool]
  split_ifs with hany
  · rw [map_id_changeTool]
    · apply h
    · intro _ _
      rfl
  rw [map_append, map_singleton, nodup_append]
  use h, nodup_singleton _
  rintro _ hid _ hmem rfl
  obtain ⟨tool, htool, hid⟩ := mem_map.mp hid
  rw [mem_singleton] at hmem
  apply hany
  rw [any_eq_true]
  use tool, htool
  rw [decide_eq_true_eq, hid, hmem]

/-- A chunk keeps the ids of the tool uses apart. -/
theorem InProgress.Distinct.merge {current : InProgress} (h : current.Distinct)
    (chunk : ProviderChunk) :
  (merge current chunk).Distinct
  := by
  cases chunk with
  | toolUseStart id name => apply distinct_startTool h
  | toolUseDelta id argsFragment =>
    rw [Distinct, Core.merge, map_id_changeTool]
    · apply h
    · intro tool hid
      apply hid
  | toolUseEnd id =>
    rw [Distinct, Core.merge, map_id_endToolUse]
    apply h
  | textDelta text | thinkingDelta text | usage usage | messageStop stopReason
  | messageStart messageId | messageInterrupted reason | error message => apply h

/-- A result is an answer to the tool use it names. -/
theorem resultContent_ids (m : Message) (result : ToolExecution)
    (hm : m.content = resultContent result) :
  m.useIds = [] ∧ m.resultIds = [result.toolUseId]
  := by
  simp [Message.useIds, Message.resultIds, hm, resultContent, ContentPart.useId,
    ContentPart.resultId]

/-! ### The invariant -/

/-- Where the runner waits, the conversation is answered but for the message whose tools are
being executed. -/
def AnsweredAt (messages : List Message) : Phase → Prop
  | .streaming messageId _ current => Answered messages ∧ current.Distinct ∧ messageId ≠ ""
  | .executing toolUses _ _ =>
    ∃ ms a, messages = ms ++ [a] ∧ Answered ms ∧ a.role = .assistant ∧ a.resultIds = [] ∧
      a.useIds = toolUses.map ToolUse.id ∧ (toolUses.map ToolUse.id).Nodup ∧
      ∀ tool ∈ toolUses, tool.id ≠ "" ∧ tool.name ≠ ""
  | _ => Answered messages

/-- The conversation of the runner is answered as far as it can be. -/
def Runner.Answering (r : Runner) : Prop :=
  AnsweredAt r.state.messages r.phase

/-- The tool use can be reported. -/
def ToolUse.conforms (tool : ToolUse) : Bool :=
  tool.id ≠ "" && tool.name ≠ "" && jsonConforms tool.input

/-- The tool resolves, with the id of its use. -/
def resolves (outcome : String → Except String Settled) (tool : ToolUse) : Bool :=
  match outcome tool.id with
  | .ok settled => settled.execution.toolUseId = tool.id
  | .error _ => false

/-- What the tool took and changed can be reported, if it resolves. -/
def reports (startedAt : ℤ) (outcome : String → Except String Settled) (tool : ToolUse) : Bool :=
  match outcome tool.id with
  | .ok settled =>
    isCount (settled.finishedAt - startedAt : ℤ) && settled.execution.linesAdded.all isCount &&
      settled.execution.linesRemoved.all isCount
  | .error _ => true

/-- What happens keeps tool calls answered: messages of the user have no tool uses or results,
there is no context policy, a message with tool uses can be reported, its tools resolve with
the ids of their uses, and the results of all but the last can be reported. -/
def answers (r : Runner) : Action → Bool
  | .run input _ => input.all fun part => part.useId.isNone && part.resultId.isNone
  | .pass _ _ compaction _ => compaction.isNone
  | .streamEnd onSuccess _ =>
    match r.phase with
    | .streaming _ _ current =>
      r.aborted || onSuccess.toOption.isNone || (toolUsesOf current).isEmpty ||
        (current.usage.all usageConforms && (toolUsesOf current).all ToolUse.conforms)
    | _ => true
  | .toolsEnd outcome _ =>
    match r.phase with
    | .executing toolUses startedAt current =>
      (toolUses.all fun tool => current.invalidTools.contains tool.id || resolves outcome tool) &&
        toolUses.dropLast.all fun tool =>
          current.invalidTools.contains tool.id || reports startedAt outcome tool
    | _ => true
  | _ => true

/-- The conversation is the same. -/
def SameMessages (r t : Runner) : Prop :=
  t.state.messages = r.state.messages

instance : IsPreorder Runner SameMessages :=
  inferInstanceAs (IsPreorder Runner (Same fun r => r.state.messages))

theorem sameMessages_ignores (env : Externals) :
  Ignores env SameMessages
  where
  draw _ := rfl
  record _ _ _ _ _ := rfl
  locals _ _ _ := rfl
  prompt _ _ := rfl
  signal _ := rfl

section Steps

variable {env : Externals} {options : RunnerOptions} {now : ℤ} {r : Runner}

/-- What the loop throws is caught with the conversation answered. -/
theorem answering_caught {error : String} (h : Answered r.state.messages) :
  (r.leave (caught env now error)).Answering
  := by
  apply leave_of_wp
  apply wp_mono (wp_and ((sameMessages_ignores env).caught_within error r) (caught_returns r))
  · rintro _ t ⟨hsame, rfl⟩
    change Answered t.state.messages
    rw [hsame]
    apply h
  intro _ t hsame
  change Answered t.state.messages
  rw [hsame.1]
  apply h

theorem emit_sameMessages (payload : Payload) :
  Within SameMessages (emit env now payload)
  := by
  intro r
  rw [wp_emit]
  split_ifs
  · rfl
  · rfl

/-- The start of a turn adds a message without tool uses or results. -/
theorem answering_beginTurn {input : List ContentPart} (h : Answered r.state.messages)
    (hinput : ∀ part ∈ input, part.useId = none ∧ part.resultId = none) :
  (r.leave (beginTurn env options input now)).Answering
  := by
  have hplain : ∀ id createdAt, Plain ⟨id, .user, input, createdAt, Meta.empty⟩ := by
    intro id createdAt
    constructor
    · apply filterMap_eq_nil_iff.mpr
      intro part hpart
      apply (hinput part hpart).1
    · apply filterMap_eq_nil_iff.mpr
      intro part hpart
      apply (hinput part hpart).2
  apply leave_of_wp
  simp only [beginTurn, openTurn, newMessage, wp_bind, wp_drawId, wp_modify, wp_pure, wp_update,
    wp_get]
  apply (emit_sameMessages _).mono
  · intro _ t ht
    rw [wp_bind]
    apply (Within.forM fun task _ => emit_sameMessages (.taskStarted task)).mono
    · intro _ u hu
      rw [wp_bind, wp_append, wp_bind]
      apply (emit_sameMessages _).mono
      all_goals
        intro _ v hv
        change Answered v.state.messages
        rw [hv, updateSession, hu.trans ht]
        apply h.append_plain (hplain _ _)
    intro _ u hu
    change Answered u.state.messages
    rw [hu.trans ht]
    apply h
  intro _ t ht
  change Answered t.state.messages
  rw [ht]
  apply h

variable {current : InProgress}

/-- A message without tool uses ends the turn. -/
theorem finish_plain (decision : RouterDecision) (messageId : String)
    (h : toolUsesOf current = []) :
  Plain (finish current decision messageId now)
  := by
  use by rw [finish_useIds, h, map_nil], finish_resultIds current decision messageId now

/-- The tools of a message start if they can be reported. -/
theorem startTools_succeeds {toolUses : List ToolUse} (h : ∀ tool ∈ toolUses, tool.conforms) :
  Succeeds (startTools env now toolUses current)
  := by
  rw [startTools]
  split
  · apply Succeeds.pure
  apply Succeeds.bind (Succeeds.modify _)
  intro _
  apply Succeeds.bind
  · apply Succeeds.forM
    intro tool htool s
    rw [wp_emit_of_conforms]
    · exact True.intro
    · simpa [Payload.conforms, ToolUse.conforms] using h tool htool
  intro _
  apply Succeeds.bind
  · apply Succeeds.forM
    intro tool htool s
    have hconf := h tool (mem_of_mem_filter htool)
    rw [ToolUse.conforms, and_eq_true, and_eq_true] at hconf
    rw [wp_emit_of_conforms]
    · exact True.intro
    · simpa [Payload.conforms] using hconf.1
  · intro _
    apply Succeeds.pure

variable {messageId : String} {decision : RouterDecision}

/-- A finished message can be reported if its tool uses can. -/
theorem finish_conforms
    (hid : messageId ≠ "") (h : ∀ tool ∈ toolUsesOf current, tool.conforms) :
  (appendedPayload (finish current decision messageId now)).conforms
  := by
  have hcont : contentsConform (toEventContent (finish current decision messageId now).content)
      := by
    rw [toEventContent_eq_map, contentsConform_iff]
    intro part hpart
    obtain ⟨source, hsrc, rfl⟩ := mem_map.mp hpart
    simp only [finish, mem_append, mem_map] at hsrc
    rcases hsrc with (hthink | htext) | ⟨tool, htool, rfl⟩
    · split_ifs at hthink
      · simp at hthink
      · rw [mem_singleton.mp hthink]
        rfl
    · split_ifs at htext
      · simp at htext
      · rw [mem_singleton.mp htext]
        rfl
    · have hconf := h tool htool
      rw [ToolUse.conforms, and_eq_true] at hconf
      apply hconf.2
  simp only [appendedPayload, Payload.conforms, hcont, Bool.and_true, decide_eq_true_eq]
  apply hid

theorem setLocals_sameMessages (f : Locals → Locals) :
  Within SameMessages (setLocals f)
  := fun _ => rfl

theorem spend_sameMessages (usage : Usage) :
  Within SameMessages (spend usage)
  := by
  apply Within.bind (setLocals_sameMessages _)
  intro _ _
  rfl

theorem conclude_sameMessages {assistant : Message} :
  Within SameMessages (conclude env now assistant current)
  := by
  apply Within.bind (Within.forM fun usage _ => spend_sameMessages usage)
  intro _
  apply Within.bind (setLocals_sameMessages _)
  intro _
  apply Within.bind (emit_sameMessages _)
  intro _
  apply Within.bind (emit_sameMessages _)
  intro _
  apply (sameMessages_ignores env).startTools_within

/-- A finished message is followed by the execution of its tools if it has any. -/
theorem conclude_returns {assistant : Message} :
  Returns (fun phase => toolUsesOf current = [] ∧ phase = .closing ∨
      toolUsesOf current ≠ [] ∧ phase = .executing (toolUsesOf current) now (endAll current))
    (conclude env now assistant current)
  := by
  apply Returns.bind
  intro _
  apply Returns.bind
  intro _
  apply Returns.bind
  intro _
  apply Returns.bind
  intro _
  apply startTools_returns

/-- The end of a stream leads out of it. -/
theorem endStream_leads {messageId : String} {decision : RouterDecision} {current : InProgress}
    {onSuccess : Except String Unit} :
  Returns (fun phase => phase = .closing ∨
      phase = .executing (toolUsesOf current) now (endAll current))
    (endStream env now onSuccess messageId decision current)
  := by
  apply Returns.bind
  intro s
  split_ifs
  · apply Returns.pure
    left
    rfl
  apply Returns.bind
  intro _
  apply Returns.bind
  intro _
  apply conclude_returns.imp
  rintro phase (⟨-, h⟩ | ⟨-, h⟩)
  · left
    apply h
  · right
    apply h

/-- A finished message is reported and its tools start if they can be reported. -/
theorem conclude_succeeds {assistant : Message} (hasst : (appendedPayload assistant).conforms)
    (husage : current.usage.all usageConforms)
    (htools : ∀ tool ∈ toolUsesOf current, tool.conforms) :
  Succeeds (conclude env now assistant current)
  := by
  have hid : assistant.id ≠ "" := by
    simp only [appendedPayload, Payload.conforms, and_eq_true, decide_eq_true_eq] at hasst
    apply hasst.1
  apply Succeeds.bind (Succeeds.forM fun usage _ => ?_)
  · intro _
    apply Succeeds.bind (Succeeds.modify _)
    intro _
    apply Succeeds.bind
    · intro s
      rw [wp_emit_of_conforms]
      · exact True.intro
      · simp [Payload.conforms, hid, husage]
    intro _
    apply Succeeds.bind
    · intro s
      rw [wp_emit_of_conforms hasst]
      exact True.intro
    · intro _
      apply startTools_succeeds htools
  · apply Succeeds.bind (Succeeds.modify _)
    intro _
    apply Succeeds.modify

/-- At the end of a stream the finished message joins the conversation, and waits for the results
of its tools if it has any. -/
theorem answering_endStream {onSuccess : Except String Unit} (h : Answered r.state.messages)
    (hdist : current.Distinct) (hid : messageId ≠ "")
    (hanswers : r.aborted = false → onSuccess = .ok () → toolUsesOf current ≠ [] →
      current.usage.all usageConforms ∧ ∀ tool ∈ toolUsesOf current, tool.conforms) :
  (r.attempt env now (endStream env now onSuccess messageId decision current)).Answering
  := by
  apply attempt_of_wp
  rw [endStream, wp_bind, wp_get, wp_ite]
  split_ifs with habort
  · apply h
  rw [wp_bind, wp_ofExcept]
  cases onSuccess with
  | error e => apply answering_caught h
  | ok u =>
  rw [wp_bind, wp_append]
  by_cases htools : toolUsesOf current = []
  · have hplain : Answered (r.state.messages ++ [finish current decision messageId now]) :=
      h.append_plain (finish_plain decision messageId htools)
    apply wp_mono (wp_and (conclude_sameMessages _) (conclude_returns _))
    · rintro _ t ⟨hsame, ⟨_, rfl⟩ | ⟨hne, _⟩⟩
      · change Answered t.state.messages
        rw [hsame]
        apply hplain
      · exact (hne htools).elim
    rintro _ t ⟨hsame, _⟩
    apply answering_caught
    rw [hsame]
    apply hplain
  obtain ⟨husage, hconf⟩ := hanswers (not_eq_true _ ▸ habort) rfl htools
  apply (conclude_succeeds (finish_conforms hid hconf) husage hconf).wp
    (E := fun _ _ => True)
  apply wp_mono (wp_and (conclude_sameMessages _) (conclude_returns _))
  · rintro _ t ⟨hsame, ⟨hnil, _⟩ | ⟨_, rfl⟩⟩
    · exact (htools hnil).elim
    use r.state.messages, finish current decision messageId now, hsame, h, rfl
    use finish_resultIds current decision messageId now
    use finish_useIds current decision messageId now
    use by
      rw [map_id_toolUsesOf]
      apply hdist
    intro tool htool
    have hreport := hconf tool htool
    simp only [ToolUse.conforms, and_eq_true, decide_eq_true_eq] at hreport
    apply hreport.1
  · intro _ _ _
    exact True.intro

/-- What a tool took and changed can be reported. -/
def ToolExecution.reportable (result : ToolExecution) : Bool :=
  result.durationMs.all isCount && result.linesAdded.all isCount &&
    result.linesRemoved.all isCount

section Settling

variable {current : InProgress} {startedAt : ℤ} {outcome : String → Except String Settled}

/-- A tool use that resolves has a result with its id, which can be reported if what the tool
took and changed can. -/
theorem settleOne_of_resolves (startedAt : ℤ) {tool : ToolUse}
    (h : current.invalidTools.contains tool.id ∨ resolves outcome tool) :
  ∃ result, settleOne current startedAt outcome tool = .ok result ∧ result.toolUseId = tool.id ∧
    (current.invalidTools.contains tool.id ∨ reports startedAt outcome tool → result.reportable)
  := by
  rw [settleOne]
  split_ifs with hinvalid
  · exact ⟨_, rfl, rfl, fun _ => rfl⟩
  have hresol : resolves outcome tool := h.resolve_left hinvalid
  rw [resolves] at hresol
  cases hout : outcome tool.id with
  | error e => simp [hout] at hresol
  | ok settled =>
  rw [hout] at hresol
  refine ⟨_, rfl, of_decide_eq_true hresol, ?_⟩
  intro hrep
  have hrep' := hrep.resolve_left hinvalid
  rw [reports, hout] at hrep'
  apply hrep'

/-- Tool uses that resolve have results with their ids, and the results of all but the last can
be reported if what these tools took and changed can. -/
theorem settleAll_of_resolves (startedAt : ℤ) {tools : List ToolUse}
    (h : ∀ tool ∈ tools, current.invalidTools.contains tool.id ∨ resolves outcome tool) :
  ∃ results, settleAll current startedAt outcome tools = .ok results ∧
    results.map ToolExecution.toolUseId = tools.map ToolUse.id ∧
    ((∀ tool ∈ tools.dropLast, current.invalidTools.contains tool.id ∨
        reports startedAt outcome tool) →
      ∀ result ∈ results.dropLast, result.reportable)
  := by
  induction tools with
  | nil => exact ⟨[], rfl, rfl, by simp⟩
  | cons tool tools ih =>
  obtain ⟨result, hres, hid, hreport⟩ := settleOne_of_resolves startedAt (h tool mem_cons_self)
  obtain ⟨results, hress, hids, hrep⟩ := ih fun t ht => h t (mem_cons_of_mem _ ht)
  refine ⟨result :: results, by rw [settleAll, hres, hress], by simp [hid, hids], ?_⟩
  intro hall
  cases tools with
  | nil =>
    obtain rfl : results = [] := map_eq_nil_iff.mp hids
    simp
  | cons tool' tools =>
  cases results with
  | nil => simp at hids
  | cons result' results =>
  rw [dropLast_cons_cons] at hall ⊢
  intro r hr
  rcases mem_cons.mp hr with rfl | hr
  · apply hreport (hall tool mem_cons_self)
  · apply hrep (fun t ht => hall t (mem_cons_of_mem _ ht)) r hr

end Settling

/-- The content of a result can be reported. -/
theorem resultContent_conforms (result : ToolExecution) :
  contentsConform (toEventContent (resultContent result))
  := rfl

/-- A completed tool use is reported under the name of the use. -/
theorem completedPayload_conforms {toolUses : List ToolUse} {result : ToolExecution}
    (htools : ∀ tool ∈ toolUses, tool.id ≠ "" ∧ tool.name ≠ "")
    (hres : result.toolUseId ∈ toolUses.map ToolUse.id) (hreport : result.reportable) :
  (completedPayload toolUses result).conforms
  := by
  obtain ⟨tool, htool, hid⟩ := mem_map.mp hres
  have hname : toolNameOf toolUses result ≠ "" := by
    rw [toolNameOf]
    split
    · next found hfound => apply (htools found (mem_of_find?_eq_some hfound)).2
    · rename_i hnone
      have hno := List.find?_eq_none.mp hnone tool htool
      simp [hid] at hno
  have hidne : result.toolUseId ≠ "" := by
    rw [← hid]
    apply (htools tool htool).1
  simp only [ToolExecution.reportable, and_eq_true] at hreport
  simp only [completedPayload, Payload.conforms, and_eq_true, decide_eq_true_eq]
  exact ⟨⟨⟨⟨hidne, hname⟩, hreport.1.1⟩, hreport.1.2⟩, hreport.2⟩

/-- While results join the conversation, the last message of the assistant is followed by the
results of the first of its tool uses. -/
structure PartlyAnswered (ms : List Message) (a : Message) (done : List ToolExecution)
    (messages : List Message) : Prop where
  so_far : ∃ rs, messages = ms ++ a :: rs ∧ (∀ r ∈ rs, r.role ≠ .assistant) ∧
    (∀ r ∈ rs, r.useIds = []) ∧ resultIds rs = done.map ToolExecution.toolUseId

/-- One more result. -/
theorem PartlyAnswered.append {ms : List Message} {a : Message} {done : List ToolExecution}
    {messages : List Message} (h : PartlyAnswered ms a done messages) (result : ToolExecution)
    (id : String) (createdAt : ℚ) :
  PartlyAnswered ms a (done ++ [result])
    (messages ++ [⟨id, .user, resultContent result, createdAt, Meta.empty⟩])
  := by
  obtain ⟨rs, rfl, hrole, huses, hids⟩ := h.so_far
  obtain ⟨hnoUse, hid⟩ :=
    resultContent_ids ⟨id, .user, resultContent result, createdAt, Meta.empty⟩ result rfl
  use rs ++ [⟨id, .user, resultContent result, createdAt, Meta.empty⟩], by simp
  constructor
  · intro r hr
    rcases mem_append.mp hr with hr | hr
    · apply hrole r hr
    · rw [mem_singleton.mp hr]
      nofun
  constructor
  · intro r hr
    rcases mem_append.mp hr with hr | hr
    · apply huses r hr
    · rw [mem_singleton.mp hr, hnoUse]
  have hlast : resultIds [⟨id, .user, resultContent result, createdAt, Meta.empty⟩] =
      [result.toolUseId] := by
    rw [resultIds, flatMap_singleton, hid]
  rw [resultIds_append, hids, hlast, map_append, map_singleton]

/-- Once all results have joined, the conversation is answered. -/
theorem PartlyAnswered.answered {ms : List Message} {a : Message} {done : List ToolExecution}
    {messages : List Message} (h : PartlyAnswered ms a done messages) (hms : Answered ms)
    (ha : a.role = .assistant) (hress : a.resultIds = []) (hdist : a.useIds.Nodup)
    (hdone : done.map ToolExecution.toolUseId = a.useIds) :
  Answered messages
  := by
  obtain ⟨rs, rfl, hrole, huses, hids⟩ := h.so_far
  apply hms.append_exchange ha hress hdist hrole huses
  rw [hids, hdone]

/-- The results of the tools join the conversation, and it is answered, also when the last of
them cannot be reported. -/
theorem answering_endTools (hids : ∀ n, env.uuidv7 n ≠ "") {toolUses : List ToolUse}
    {startedAt : ℤ} {outcome : String → Except String Settled}
    (h : AnsweredAt r.state.messages (.executing toolUses startedAt current))
    (hresol : ∀ tool ∈ toolUses, current.invalidTools.contains tool.id ∨ resolves outcome tool)
    (hrep : ∀ tool ∈ toolUses.dropLast, current.invalidTools.contains tool.id ∨
      reports startedAt outcome tool) :
  (r.attempt env now (endTools env now outcome toolUses startedAt current)).Answering
  := by
  obtain ⟨ms, a, hmsgs, hms, ha, hress, huses, hdist, hnames⟩ := h
  obtain ⟨results, hset, hresultIds, hreportable⟩ := settleAll_of_resolves startedAt hresol
  have hansw {done : List ToolExecution} {messages : List Message} (heq : results = done)
      (hpartly : PartlyAnswered ms a done messages) : Answered messages := by
    apply hpartly.answered hms ha hress
    · rw [huses]
      apply hdist
    · rw [← heq, hresultIds, huses]
  have hloop : wp (results.forM (appendResult env now toolUses))
      (fun _ t => PartlyAnswered ms a results t.state.messages)
      (fun _ t => Answered t.state.messages) r := by
    apply wp_forM (I := fun done (t : Runner) => PartlyAnswered ms a done t.state.messages)
    · intro past result rest s heq hpast
      have hmem : result.toolUseId ∈ toolUses.map ToolUse.id := by
        rw [← hresultIds, heq]
        simp
      have hnext := hpast.append result (env.uuidv7 s.drawn) now
      rw [appendResult, newMessage, wp_bind, wp_bind, wp_drawId, wp_pure, wp_bind, wp_append,
        wp_bind]
      by_cases hconf : (completedPayload toolUses result).conforms
      · rw [wp_emit_of_conforms hconf, wp_emit_of_conforms]
        · apply hnext
        · simp [appendedPayload, Payload.conforms, resultContent_conforms, hids]
      rw [wp_emit, if_neg hconf]
      have hrest : rest = [] := by
        by_contra hne
        apply hconf
        apply completedPayload_conforms hnames hmem
        apply hreportable hrep
        rw [heq, dropLast_append_of_ne_nil (by simp), dropLast_cons_of_ne_nil hne]
        simp
      apply hansw _ hnext
      rw [heq, hrest]
    · use [], by simpa using hmsgs
      simp [resultIds]
  apply attempt_of_wp
  rw [endTools, hset]
  simp only [wp_bind, wp_ofExcept]
  apply wp_mono hloop
  · intro _ t ht
    apply hansw rfl ht
  · intro _ t ht
    apply answering_caught ht

theorem setStatus_sameMessages (turnId : String) (status : TurnStatus) :
  Within SameMessages (update fun s =>
    { s with activeTurn := none, turns := setStatus turnId status s.turns })
  := fun _ => rfl

theorem endTurn_sameMessages :
  Within SameMessages (endTurn env options now)
  := by
  apply Within.bind Within.get
  intro s
  apply Within.bind (setStatus_sameMessages _ _)
  intro _
  apply Within.bind (emit_sameMessages _)
  intro _
  apply Within.bind (Within.forM fun task _ => emit_sameMessages _)
  intro _
  apply Within.pure

/-- A turn that has ended leaves the runner idle. -/
theorem endTurn_returns :
  Returns (fun phase => phase = .idle) (endTurn env options now)
  := by
  apply Returns.bind
  intro _
  apply Returns.bind
  intro _
  apply Returns.bind
  intro _
  apply Returns.bind
  intro _
  apply Returns.pure
  rfl

/-- The end of a turn leaves the conversation as it is. -/
theorem answering_endTurn (h : Answered r.state.messages) :
  (r.leave (endTurn env options now)).Answering
  := by
  apply leave_of_wp
  apply wp_mono (wp_and (endTurn_sameMessages r) (endTurn_returns r))
  · rintro _ t ⟨ht, rfl⟩
    change Answered t.state.messages
    rw [ht]
    apply h
  rintro _ t ⟨ht, _⟩
  change Answered t.state.messages
  rw [ht]
  apply h

/-- The head of the loop leaves the conversation as it is, without a context policy. -/
theorem answering_beginPass (hids : ∀ n, env.uuidv7 n ≠ "")
    {picked : Except String RouterDecision} {composed : Except String String}
    (h : Answered r.state.messages) :
  (r.attempt env now (beginPass env options now picked composed none)).Answering
  := by
  have hsame : Within SameMessages (beginPass env options now picked composed none) :=
    (sameMessages_ignores env).beginPass_within (by simp)
  apply attempt_of_wp
  apply wp_mono (wp_and (hsame r) (beginPass_returns r))
  · rintro _ t ⟨ht, rfl | ⟨n, decision, rfl⟩⟩
    · change Answered t.state.messages
      rw [ht]
      apply h
    constructor
    · rw [ht]
      apply h
    · use nodup_nil, hids n
  rintro _ t ⟨ht, _⟩
  apply answering_caught
  rw [ht]
  apply h

/-- A chunk leaves the conversation as it is. -/
theorem answering_receive {chunk : ProviderChunk} {answer : Except String (Option RouterDecision)}
    (h : Answered r.state.messages) (hdist : current.Distinct) (hid : messageId ≠ "") :
  (r.attempt env now (receive env now chunk answer messageId decision current)).Answering
  := by
  apply attempt_of_wp
  apply wp_mono (wp_and ((sameMessages_ignores env).receive_within r) (receive_returns r))
  · rintro _ t ⟨ht, rfl | rfl | rfl⟩
    · change Answered t.state.messages
      rw [ht]
      apply h
    · change Answered t.state.messages
      rw [ht]
      apply h
    constructor
    · rw [ht]
      apply h
    · use hdist.merge chunk, hid
  rintro _ t ⟨ht, _⟩
  apply answering_caught
  rw [ht]
  apply h

/-- One step of the runner keeps the conversation answered as far as it can be. -/
theorem Runner.Answering.step (hids : ∀ n, env.uuidv7 n ≠ "") {a : Action} {t : Runner}
    (h : r.Answering) (ha : answers r a) (hstep : step env options r a = some t) :
  t.Answering
  := by
  rw [Runner.Answering] at h
  cases move_of_step hstep with
  | run hphase =>
    rw [hphase] at h
    apply answering_beginTurn h
    intro part hpart
    have hplain := all_eq_true.mp ha part hpart
    simpa [and_eq_true] using hplain
  | interrupt => apply h
  | pass hphase =>
    rw [hphase] at h
    rw [Option.isNone_iff_eq_none.mp ha]
    apply answering_beginPass hids h
  | chunk hphase =>
    rw [hphase] at h
    apply answering_receive h.1 h.2.1 h.2.2
  | streamEnd hphase =>
    rw [hphase] at h
    apply answering_endStream h.1 h.2.1 h.2.2
    intro habort hsuccess htools
    rw [answers, hphase] at ha
    simpa [habort, hsuccess, htools, Except.toOption] using ha
  | streamError hphase =>
    rw [hphase] at h
    apply answering_caught h.1
  | toolsEnd hphase =>
    rw [hphase] at h
    rw [answers, hphase, and_eq_true] at ha
    apply answering_endTools hids h
    · intro tool htool
      apply or_eq_true _ _ ▸ all_eq_true.mp ha.1 tool htool
    · intro tool htool
      apply or_eq_true _ _ ▸ all_eq_true.mp ha.2 tool htool
  | settle hphase =>
    rw [hphase] at h
    apply answering_endTurn h

end Steps

/-! ### Runs -/

/-- Whenever a run has returned, every tool use of the conversation is answered, if what happened
in the runs so far keeps tool calls answered. -/
theorem answered_of_conforming {env : Externals} (hids : ∀ n, env.uuidv7 n ≠ "")
    {options : RunnerOptions} {state : SessionState} (hstate : Answered state.messages)
    {actions : List Action} {r : Runner}
    (hok : Guarded (step env options) (fun r a => answers r a) (.new state) actions)
    (hrun : run (step env options) (.new state) actions = some r) (hidle : r.phase = .idle) :
  Answered r.state.messages
  := by
  have hstart : (Runner.new state).Answering := hstate
  have hinv : r.Answering :=
    hok.invariant (fun s a t hs ha hstep => hs.step hids ha hstep) hstart hrun
  rw [Runner.Answering, hidle] at hinv
  apply hinv

/-- No run is under way. -/
def Runner.hasReturned (r : Runner) : Bool :=
  match r.phase with
  | .idle => true
  | _ => false

theorem hasReturned_iff {r : Runner} :
  r.hasReturned ↔ r.phase = .idle
  := by
  unfold hasReturned
  split
  · next h => simp [h]
  · next h => simpa using h

/-- Ids for examples. -/
def sampleExternals : Externals where
  uuidv7 n := String.ofList ('u' :: List.replicate n '0')
  violation _ := "Event payload violates appendix D contract"

/-- A session for examples. -/
def sampleSession : SessionState :=
  createSession "session" "/" 200000 "" none none 0

/-- A decision for examples. -/
def sampleDecision : RouterDecision where
  provider := { handle := 0, name := "anthropic" }
  model := "model"
  reason := "default"

/-- A turn whose model call uses a tool: `outcome` is what the tool answers. -/
def sampleTurn (outcome : Except String Settled) : List Action :=
  [.run [.text "go"] 1, .pass (.ok sampleDecision) (.ok "") none 2,
    .chunk (.toolUseStart "t" "Read") (.ok none) 3, .chunk (.toolUseDelta "t" "null") (.ok none) 4,
    .chunk (.toolUseEnd "t") (.ok none) 5, .streamEnd (.ok ()) 6, .toolsEnd (fun _ => outcome) 7]

/-- A tool that answers. -/
def sampleOutcome : Settled where
  execution :=
    { toolUseId := "t"
      toolName := some "Read"
      content := [.text "contents"]
      isError := none
      durationMs := none
      linesAdded := none
      linesRemoved := none }
  finishedAt := 7

theorem sampleExternals_ne (n : ℕ) :
  sampleExternals.uuidv7 n ≠ ""
  := by
  intro h
  have hlist := congrArg String.toList h
  simp [sampleExternals] at hlist

/-- A turn whose tool answers, and whose second model call ends it. -/
def answeredTurn : List Action :=
  sampleTurn (.ok sampleOutcome) ++
    [.pass (.ok sampleDecision) (.ok "") none 8, .chunk (.textDelta "done") (.ok none) 9,
      .streamEnd (.ok ()) 10, .settle 11]

theorem answered_of_conforming_answeredTurn :
  ∃ r, run (step sampleExternals .default) (.new sampleSession) answeredTurn = some r ∧
    r.phase = .idle ∧ Answered r.state.messages
  := by
  have hret : (run (step sampleExternals .default) (.new sampleSession) answeredTurn).any
      hasReturned := by decide +kernel
  obtain ⟨r, hrun, hidle⟩ := Option.any_eq_true _ _ |>.mp hret
  use r, hrun, hasReturned_iff.mp hidle
  apply answered_of_conforming sampleExternals_ne Answered.nil _ hrun (hasReturned_iff.mp hidle)
  decide +kernel

/-- A tool that rejects ends the turn with its tool use unanswered. -/
theorem not_answered :
  ∃ r, run (step sampleExternals .default) (.new sampleSession)
      (sampleTurn (.error "permission denied") ++ [.settle 8]) = some r ∧
    r.phase = .idle ∧ ¬ Answered r.state.messages
  := by
  refine ⟨_, rfl, rfl, ?_⟩
  intro h
  have huse := @Answered.uses _ h [_] _ [] rfl "t" (by decide)
  exact absurd huse.2.2 (by decide)

end Core
