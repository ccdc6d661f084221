import VolundCode.Core.Ledger

/-!
# Resuming a session

A session whose log is replayed has the conversation and the turns it has live, whatever
subagents logged in between and whatever lines were copied, if the events between a change of
the conversation and the event that records it meet their contracts
(`conversation_replay_eq_live`). A message that joins the conversation before an event is thrown
back is missing after a resume (`conversation_replay_ne_live`).
-/

namespace Core

open ProviderKit Effect Run List Runner

/-! ### What is said and what is logged of it -/

/-- What a runner has said, and what its log says of it. -/
structure Talk where
  messages : List (String × Role × List ContentPart)
  turns : List Turn
  depth : ℕ
  turnId : String
  logged : List (String × Role × List ContentPart)
  loggedTurns : List (String × TurnStatus)

def Runner.talk (r : Runner) : Talk where
  messages := r.state.messages.map said
  turns := r.state.turns
  depth := r.state.lineage.depth
  turnId := r.locals.turnId
  logged := (transcript r.events).messages
  loggedTurns := (transcript r.events).turns

/-- Nothing more is said or logged. -/
abbrev SameTalk : Runner → Runner → Prop :=
  Same talk

theorem talk_record {env : Externals} (r : Runner) (now : ℤ) (payload : Payload) :
  (r.record env now payload).talk =
    { r.talk with
      logged := ((transcript r.events).add payload).messages
      loggedTurns := ((transcript r.events).add payload).turns }
  := by
  rw [talk, transcript_record]
  rfl

theorem sameTalk_ignores (env : Externals) :
  Ignores env SameTalk
  where
  draw _ := rfl
  record r now payload _ hneutral := by
    change (r.record env now payload).talk = r.talk
    rw [talk_record, add_of_neutral hneutral]
    rfl
  locals r f hf := by
    simp only [Same, talk, (hf r.locals).1]
  prompt _ _ := rfl
  signal _ := rfl

/-- The log says what was said, and the turns are those of the session itself. -/
structure Recorded (k : Talk) : Prop where
  messages : k.logged = k.messages
  turns : k.loggedTurns = k.turns.map standing
  depth : k.depth = 0
  shallow : ∀ turn ∈ k.turns, turn.parentDepth = 0

/-- The last turn is under way, and those before it have ended. -/
def UnderWay (k : Talk) : Prop :=
  k.turnId ≠ "" ∧ ∃ earlier last, k.turns = earlier ++ [last] ∧ last.id = k.turnId ∧
    ∀ turn ∈ earlier, turn.status.terminal ∧ turn.id ≠ k.turnId

/-- How the turns stand where the runner waits. -/
def StandsAt (k : Talk) : Phase → Prop
  | .idle => ∀ turn ∈ k.turns, turn.status.terminal
  | .streaming messageId _ _ => UnderWay k ∧ messageId ≠ ""
  | .executing toolUses _ _ => UnderWay k ∧ ∀ tool ∈ toolUses, tool.id ≠ "" ∧ tool.name ≠ ""
  | _ => UnderWay k

/-- What the runner has said is recorded in its log. -/
def Runner.Recording (r : Runner) : Prop :=
  Recorded r.talk ∧ StandsAt r.talk r.phase

/-! ### What can be recorded -/

/-- The tool rejects. -/
def rejects (outcome : String → Except String Settled) (tool : ToolUse) : Bool :=
  match outcome tool.id with
  | .ok _ => false
  | .error _ => true

/-- What the tool answers can be reported, if it resolves. -/
def completes (toolUses : List ToolUse) (startedAt : ℤ)
    (outcome : String → Except String Settled) (tool : ToolUse) : Bool :=
  match outcome tool.id with
  | .ok settled =>
    settled.execution.toolUseId ≠ "" && toolNameOf toolUses settled.execution ≠ "" &&
      reports startedAt outcome tool
  | .error _ => true

/-- What happens can be recorded: the content of a message of the user, the usage and the tool
arguments of a finished message, what the tools answer unless one of them rejects, and what the
turn used unless it ends aborted. There is no context policy. -/
def recordable (r : Runner) : Action → Bool
  | .run input _ => contentsConform input
  | .pass _ _ compaction _ => compaction.isNone
  | .streamEnd onSuccess _ =>
    match r.phase with
    | .streaming _ _ current =>
      r.aborted || onSuccess.toOption.isNone ||
        (current.usage.all usageConforms &&
          (toolUsesOf current).all fun tool => jsonConforms tool.input)
    | _ => true
  | .toolsEnd outcome _ =>
    match r.phase with
    | .executing toolUses startedAt current =>
      (toolUses.any fun tool => !current.invalidTools.contains tool.id && rejects outcome tool) ||
        toolUses.all fun tool => current.invalidTools.contains tool.id ||
          completes toolUses startedAt outcome tool
    | _ => true
  | .settle _ => r.endsAborted || usageConforms r.locals.turnUsage.toUsage
  | _ => true

mutual

/-- A part that conforms has no attachments whose bytes are in the message. -/
theorem referenced_of_conforms : ∀ {part : ContentPart}, contentConforms part → referenced part
  | .text _, _ | .thinking _ _, _ => rfl
  | .image _ _, h | .file _ _ _, h => h
  | .toolUse _ _ _, _ => rfl
  | .toolResult _ content _, h => allReferenced_of_conform h

theorem allReferenced_of_conform : ∀ {parts : List ContentPart}, contentsConform parts →
  allReferenced parts
  | [], _ => rfl
  | part :: parts, h => by
    rw [contentsConform, Bool.and_eq_true] at h
    rw [allReferenced, referenced_of_conforms h.1, allReferenced_of_conform h.2, Bool.and_self]

end

/-- A message whose content conforms is recorded as it is. -/
theorem appendedPayload_of_conforms {m : Message} (hid : m.id ≠ "")
    (h : contentsConform m.content) :
  (appendedPayload m).conforms ∧ appendedPayload m = .messageAppended m.id m.role m.content
  := by
  have hcont : toEventContent m.content = m.content :=
    toEventContent_of_referenced (allReferenced_of_conform h)
  rw [appendedPayload, hcont]
  simp [Payload.conforms, hid, h]

theorem truthy_all (s : Option String) :
  (truthy s).all (· ≠ "")
  := by
  cases s with
  | none => rfl
  | some s =>
  rw [truthy, Option.filter_some]
  split
  · next h => simpa using h
  · rfl

/-- The content of a finished message conforms if the arguments of its tool uses do. -/
theorem finish_content_conforms {current : InProgress} {decision : RouterDecision}
    {messageId : String} {now : ℤ} (h : ∀ tool ∈ toolUsesOf current, jsonConforms tool.input) :
  contentsConform (finish current decision messageId now).content
  := by
  rw [contentsConform_iff]
  intro part hpart
  simp only [finish, mem_append, mem_map] at hpart
  rcases hpart with (hthink | htext) | ⟨tool, htool, rfl⟩
  · split at hthink
    · simp at hthink
    · rw [mem_singleton.mp hthink]
      rfl
  · split at htext
    · simp at htext
    · rw [mem_singleton.mp htext]
      rfl
  · apply h tool htool

section Steps

variable {env : Externals} {options : RunnerOptions} {now : ℤ} {r : Runner}

/-- What is recorded stays recorded where nothing more is said or logged. -/
theorem Runner.Recording.of_same {t : Runner} {phase : Phase} (h : Recorded r.talk)
    (hstand : StandsAt r.talk phase) (ht : SameTalk r t) :
  ({ t with phase := phase } : Runner).Recording
  := by
  have htalk : ({ t with phase := phase } : Runner).talk = r.talk := ht
  rw [Runner.Recording, htalk]
  use h, hstand

/-- What the loop throws is caught with everything recorded. -/
theorem recording_caught {error : String} (h : Recorded r.talk) (hturn : UnderWay r.talk) :
  (r.leave (caught env now error)).Recording
  := by
  have hstand : StandsAt r.talk .closing := hturn
  apply leave_of_wp
  apply caught_succeeds.wp (E := fun _ _ => True)
  apply wp_mono (wp_and ((sameTalk_ignores env).caught_within error r) (caught_returns r))
  · rintro _ t ⟨ht, rfl⟩
    apply Runner.Recording.of_same h hstand ht
  · intro _ _ _
    exact True.intro

/-- Code that says nothing leaves everything recorded. -/
theorem recording_attempt {code : Code Phase} (h : Recorded r.talk) (hturn : UnderWay r.talk)
    (hcode : Within SameTalk code) {P : Phase → Prop} (hret : Returns P code)
    (hP : ∀ phase, P phase → StandsAt r.talk phase) :
  (r.attempt env now code).Recording
  := by
  apply attempt_of_wp
  apply wp_mono (wp_and (hcode r) (hret r))
  · rintro phase t ⟨ht, hphase⟩
    apply Runner.Recording.of_same h (hP phase hphase) ht
  rintro e t ⟨ht, _⟩
  have htalk : t.talk = r.talk := ht
  apply recording_caught
  · rw [htalk]
    apply h
  · rw [htalk]
    apply hturn

/-- A message has joined the conversation, and its event is next. -/
def Talk.appended (k : Talk) (m : Message) : Talk :=
  { k with messages := k.messages ++ [said m] }

/-- The event of a message is logged. -/
def Talk.logs (k : Talk) (m : Message) : Talk :=
  { k with logged := k.logged ++ [said m] }

/-- A message and its event leave everything recorded. -/
theorem Recorded.say {k : Talk} (h : Recorded k) (m : Message) :
  Recorded ((k.appended m).logs m)
  := by
  constructor
  · change k.logged ++ [said m] = k.messages ++ [said m]
    rw [h.messages]
  · apply h.turns
  · apply h.depth
  · apply h.shallow

theorem talk_append (m : Message) :
  ({ r with state := updateSession r.state fun s => { s with messages := s.messages ++ [m] } } :
    Runner).talk = r.talk.appended m
  := by
  simp only [talk, updateSession, map_append, map_singleton, Talk.appended]

/-- The event of a message whose content conforms is logged. -/
theorem wp_emit_appended {m : Message} (hid : m.id ≠ "") (h : contentsConform m.content)
    {Q : Unit → Runner → Prop} {E : String → Runner → Prop}
    (hQ : ∀ t : Runner, t.talk = r.talk.logs m → Q () t) :
  wp (emit env now (appendedPayload m)) Q E r
  := by
  obtain ⟨hconf, hload⟩ := appendedPayload_of_conforms hid h
  rw [wp_emit_of_conforms hconf]
  apply hQ
  rw [talk_record, hload]
  rfl

/-- The turn is opened, and its event is next. -/
theorem talk_openTurn {input : List ContentPart} :
  wp (openTurn env input now)
    (fun user t => user = ⟨env.uuidv7 (r.drawn + 1), .user, input, now, Meta.empty⟩ ∧
      t.state.lineage = r.state.lineage ∧ ∃ turn : Turn, turn.id = env.uuidv7 r.drawn ∧
        turn.status = .streaming ∧ turn.parentDepth = r.state.lineage.depth ∧
        t.talk = { r.talk with turns := r.talk.turns ++ [turn], turnId := env.uuidv7 r.drawn })
    (fun _ _ => False) r
  := by
  simp only [openTurn, newMessage, wp_bind, wp_drawId, wp_modify, wp_pure, wp_update]
  exact ⟨True.intro, rfl, _, rfl, rfl, rfl, rfl⟩

/-- A turn starts with its event and the message of the user recorded. -/
theorem recording_beginTurn (hids : ∀ n, env.uuidv7 n ≠ "")
    (hinj : Function.Injective env.uuidv7) (hlogged : Logged env r)
    (htask : options.taskRun.all TaskRun.conforms) (h : Recorded r.talk)
    (hended : StandsAt r.talk .idle) {input : List ContentPart} (hinput : contentsConform input) :
  (r.leave (beginTurn env options input now)).Recording
  := by
  apply leave_of_wp
  rw [beginTurn, wp_bind]
  apply wp_mono talk_openTurn
  · rintro user t ⟨rfl, hlineage, turn, hid, hstatus, hdepth, htalk⟩
    have hturnId : t.locals.turnId = env.uuidv7 r.drawn := congrArg Talk.turnId htalk
    have hstart : (startedPayload t).conforms := by
      simp only [startedPayload, Payload.conforms, truthy_all, Bool.and_true, hturnId]
      simpa using hids r.drawn
    have hrec : Recorded (t.record env now (startedPayload t)).talk := by
      rw [talk_record, htalk]
      constructor
      · change t.talk.logged = _
        rw [htalk]
        apply h.messages
      · change t.talk.loggedTurns ++ [(t.locals.turnId, .streaming)] = _
        rw [htalk, hturnId, map_append, map_singleton, ← h.turns, standing, hid, hstatus]
      · apply h.depth
      intro k hk
      rcases mem_append.mp hk with hk | hk
      · apply h.shallow k hk
      · rw [mem_singleton.mp hk, hdepth]
        apply h.depth
    have hway : UnderWay (t.record env now (startedPayload t)).talk := by
      rw [talk_record, htalk]
      use hids r.drawn, r.talk.turns, turn, rfl, hid
      intro k hk
      use hended k hk
      intro heq
      have hdrawn : k.id = env.uuidv7 r.drawn := heq
      apply hlogged.turns.not_mem hinj
      rw [← hdrawn]
      apply mem_map_of_mem hk
    rw [wp_bind, wp_get, wp_bind, wp_emit_of_conforms hstart, wp_bind]
    have htasks : Succeeds (options.taskRun.toList.forM fun task =>
        emit env now (.taskStarted task)) := by
      apply Succeeds.forM
      intro task hmem s
      rw [wp_emit_of_conforms]
      · exact True.intro
      · rw [Option.mem_toList] at hmem
        rw [hmem] at htask
        apply htask
    apply htasks.wp (E := fun _ _ => True)
    apply (Within.forM fun task _ => (sameTalk_ignores env).emit_within rfl).mono
    · intro _ u hu
      have hutalk : u.talk = (t.record env now (startedPayload t)).talk := hu
      rw [← hutalk] at hrec hway
      rw [wp_bind, wp_append, wp_bind]
      apply wp_emit_appended (hids _) hinput
      intro v hv
      rw [talk_append] at hv
      constructor
      · change Recorded v.talk
        rw [hv]
        apply hrec.say
      · change UnderWay v.talk
        rw [hv]
        apply hway
    · intro _ _ _
      exact True.intro
  · intro _ _ hfalse
    exact hfalse.elim

theorem spend_sameTalk (usage : Usage) :
  Within SameTalk (spend usage)
  := fun _ => rfl

variable {toolUses : List ToolUse} {current : InProgress}

theorem startTools_reported :
  wp (startTools env now toolUses current)
    (fun _ _ => ∀ tool ∈ toolUses, tool.id ≠ "" ∧ tool.name ≠ "") (fun _ _ => True) r
  := by
  rw [startTools, wp_ite]
  split
  · rename_i hnil
    intro tool htool
    rw [List.isEmpty_iff.mp hnil] at htool
    simp at htool
  rw [wp_bind, wp_setLocals, wp_bind]
  apply wp_mono (wp_forM (I := fun done _ => ∀ tool ∈ done, tool.id ≠ "" ∧ tool.name ≠ "")
    (E := fun _ _ => True) _ (by simp))
  · intro _ t ht
    rw [wp_bind]
    apply wp_mono (Returns.trivial t)
    · intro _ u _
      apply ht
    · intro _ _ _
      exact True.intro
  · intro _ _ _
    exact True.intro
  intro past tool rest s _ hpast
  rw [wp_emit]
  split
  · rename_i hconf
    simp only [Payload.conforms, Bool.and_eq_true, decide_eq_true_eq] at hconf
    intro k hk
    rcases mem_append.mp hk with hk | hk
    · apply hpast k hk
    · rw [mem_singleton.mp hk]
      apply hconf.1
  · exact True.intro

/-- At the end of a stream the finished message joins the conversation and is recorded. -/
theorem recording_endStream {onSuccess : Except String Unit} {messageId : String}
    {decision : RouterDecision} (h : Recorded r.talk)
    (hturn : UnderWay r.talk) (hid : messageId ≠ "")
    (hrec : r.aborted = false → onSuccess = .ok () → current.usage.all usageConforms ∧
        ∀ tool ∈ toolUsesOf current, jsonConforms tool.input) :
  (r.attempt env now (endStream env now onSuccess messageId decision current)).Recording
  := by
  have hclose : StandsAt r.talk .closing := hturn
  apply attempt_of_wp
  rw [endStream, wp_bind, wp_get, wp_ite]
  split_ifs with habort
  · apply Runner.Recording.of_same h hclose (refl_of SameTalk r)
  rw [wp_bind, wp_ofExcept]
  cases onSuccess with
  | error e => apply recording_caught h hturn
  | ok u =>
  obtain ⟨husage, hinputs⟩ := hrec (Bool.not_eq_true _ ▸ habort) rfl
  have hspend : Succeeds (current.usage.toList.forM spend) := by
    apply Succeeds.forM
    intro usage _
    apply Succeeds.bind (Succeeds.modify _)
    intro _
    apply Succeeds.modify
  rw [wp_bind, wp_append, conclude, wp_bind]
  apply hspend.wp (E := fun _ _ => True)
  apply (Within.forM fun usage _ => spend_sameTalk usage).mono
  · intro _ t ht
    have httalk : t.talk = r.talk.appended (finish current decision messageId now) := by
      rw [← talk_append]
      apply ht
    have hcompl : (Payload.streamCompleted (finish current decision messageId now).id
        current.usage).conforms := by
      rw [Payload.conforms, husage, Bool.and_true, decide_eq_true_eq]
      apply hid
    rw [wp_bind, wp_setLocals, wp_bind, wp_emit_of_conforms hcompl, wp_bind]
    apply wp_emit_appended hid (finish_content_conforms hinputs)
    intro u hu
    have hutalk : u.talk = (r.talk.appended (finish current decision messageId now)).logs
        (finish current decision messageId now) := by
      rw [← httalk, hu, talk_record, add_of_neutral rfl]
      rfl
    have hrecorded : Recorded u.talk := by
      rw [hutalk]
      apply h.say
    have hway : UnderWay u.talk := by
      rw [hutalk]
      apply hturn
    apply wp_mono (wp_and ((sameTalk_ignores env).startTools_within u)
      (wp_and (startTools_returns u) startTools_reported))
    · rintro phase v ⟨hv, ⟨_, rfl⟩ | ⟨_, rfl⟩, hreported⟩
      · have hstand : StandsAt u.talk .closing := hway
        apply Runner.Recording.of_same hrecorded hstand hv
      · have hstand : StandsAt u.talk (.executing (toolUsesOf current) now (endAll current)) :=
          ⟨hway, hreported⟩
        apply Runner.Recording.of_same hrecorded hstand hv
    rintro e v ⟨hv, _⟩
    have hvtalk : v.talk = u.talk := hv
    apply recording_caught
    · rw [hvtalk]
      apply hrecorded
    · rw [hvtalk]
      apply hway
  · intro _ _ _
    exact True.intro

variable {startedAt : ℤ} {outcome : String → Except String Settled}

/-- What a tool answers can be reported if the tool completes. -/
theorem completedPayload_of_completes
    {tool : ToolUse}
    {result : ToolExecution} (hnames : ∀ tool ∈ toolUses, tool.id ≠ "" ∧ tool.name ≠ "")
    (htool : tool ∈ toolUses) (hres : settleOne current startedAt outcome tool = .ok result)
    (h : current.invalidTools.contains tool.id ∨ completes toolUses startedAt outcome tool) :
  (completedPayload toolUses result).conforms
  := by
  rw [settleOne] at hres
  split at hres
  · cases hres
    apply completedPayload_conforms hnames
    · apply mem_map_of_mem htool
    · rfl
  rename_i hvalid
  have hcompl := h.resolve_left hvalid
  cases hout : outcome tool.id with
  | error e => simp [hout] at hres
  | ok settled =>
  rw [hout] at hres
  cases hres
  simp only [completes, reports, hout, Bool.and_eq_true, decide_eq_true_eq]
    at hcompl
  obtain ⟨⟨hid, hname⟩, ⟨hduration, hadded⟩, hrem⟩ := hcompl
  simp only [completedPayload, Payload.conforms, Bool.and_eq_true, decide_eq_true_eq]
  exact ⟨⟨⟨⟨hid, hname⟩, hduration⟩, hadded⟩, hrem⟩

/-- If the tools all settle, what they answer can be reported if they complete, and none of them
rejects. -/
theorem settleAll_of_completes {tools : List ToolUse}
    {results : List ToolExecution} (hnames : ∀ tool ∈ toolUses, tool.id ≠ "" ∧ tool.name ≠ "")
    (htools : ∀ tool ∈ tools, tool ∈ toolUses)
    (hress : settleAll current startedAt outcome tools = .ok results)
    (h : ∀ tool ∈ tools, current.invalidTools.contains tool.id ∨
      completes toolUses startedAt outcome tool) :
  ∀ result ∈ results, (completedPayload toolUses result).conforms
  := by
  induction tools generalizing results with
  | nil =>
    cases hress
    simp
  | cons tool tools ih =>
  rw [settleAll] at hress
  split at hress
  · cases hress
  rename_i result hres
  split at hress
  · cases hress
  rename_i rest hrest
  cases hress
  intro r hr
  rcases mem_cons.mp hr with rfl | hr
  · apply completedPayload_of_completes hnames (htools tool mem_cons_self) hres
    apply h tool mem_cons_self
  · apply ih (fun t ht => htools t (mem_cons_of_mem _ ht)) hrest
      (fun t ht => h t (mem_cons_of_mem _ ht)) r hr

/-- Tools of which one rejects do not all settle. -/
theorem settleAll_of_rejects {tools : List ToolUse} {tool : ToolUse}
    (htool : tool ∈ tools) (hvalid : current.invalidTools.contains tool.id = false)
    (hrejects : rejects outcome tool) (results : List ToolExecution) :
  settleAll current startedAt outcome tools ≠ .ok results
  := by
  induction tools generalizing results with
  | nil => simp at htool
  | cons t tools ih =>
  rw [settleAll]
  split
  · intro h
    cases h
  rename_i result hres
  rcases mem_cons.mp htool with rfl | htool
  · rw [rejects] at hrejects
    split at hrejects
    · cases hrejects
    · rename_i e hout
      rw [settleOne, hvalid, if_neg Bool.false_ne_true, hout] at hres
      cases hres
  split
  · intro h
    cases h
  · next rest hrest => exact (ih htool rest hrest).elim

/-- The results of tools join the conversation and are recorded, unless a tool rejects. -/
theorem recording_endTools (hids : ∀ n, env.uuidv7 n ≠ "")
    (h : Recorded r.talk) (hturn : UnderWay r.talk)
    (hnames : ∀ tool ∈ toolUses, tool.id ≠ "" ∧ tool.name ≠ "")
    (hrec : (∃ tool ∈ toolUses, current.invalidTools.contains tool.id = false ∧
        rejects outcome tool) ∨
      ∀ tool ∈ toolUses, current.invalidTools.contains tool.id ∨
        completes toolUses startedAt outcome tool) :
  (r.attempt env now (endTools env now outcome toolUses startedAt current)).Recording
  := by
  apply attempt_of_wp
  rw [endTools, wp_bind, wp_ofExcept]
  cases hset : settleAll current startedAt outcome toolUses with
  | error e => apply recording_caught h hturn
  | ok results =>
  have hconf : ∀ result ∈ results, (completedPayload toolUses result).conforms := by
    rcases hrec with ⟨tool, htool, hvalid, hrejects⟩ | hcompl
    · exact (settleAll_of_rejects htool hvalid hrejects results hset).elim
    · apply settleAll_of_completes hnames (fun _ ht => ht) hset hcompl
  change wp (results.forM (appendResult env now toolUses) >>= fun _ => pure Phase.looping) _ _ r
  rw [wp_bind]
  apply wp_mono (wp_forM (I := fun _ (t : Runner) => Recorded t.talk ∧ UnderWay t.talk)
    (E := fun _ _ => False) _ ⟨h, hturn⟩)
  · intro _ t ht
    apply ht
  · intro _ _ hfalse
    exact hfalse.elim
  intro past result rest s heq hs
  have hres := hconf result (by simp [heq])
  rw [appendResult, newMessage, wp_bind, wp_bind, wp_drawId, wp_pure, wp_bind, wp_append,
    wp_bind, wp_emit_of_conforms hres]
  apply wp_emit_appended (hids _)
  · rfl
  intro t ht
  have httalk : t.talk = ((s.talk.appended
      ⟨env.uuidv7 s.drawn, .user, resultContent result, now, Meta.empty⟩).logs
      ⟨env.uuidv7 s.drawn, .user, resultContent result, now, Meta.empty⟩) := by
    rw [ht, talk_record, add_of_neutral rfl, ← talk_append]
    rfl
  rw [httalk]
  exact ⟨hs.1.say _, hs.2⟩

/-- The status of the turn that ends is set at the end of the list. -/
theorem setStatus_last {turnId : String} (status : TurnStatus) {earlier : List Turn} {last : Turn}
    (hearly : ∀ turn ∈ earlier, turn.id ≠ turnId) (hlast : last.id = turnId) :
  setStatus turnId status (earlier ++ [last]) = earlier ++ [{ last with status := status }]
  := by
  induction earlier with
  | nil => rw [nil_append, setStatus, if_pos hlast, nil_append]
  | cons turn earlier ih =>
    rw [cons_append, setStatus, if_neg (hearly turn mem_cons_self),
      ih fun t ht => hearly t (mem_cons_of_mem _ ht), cons_append]

/-- The turn ends, and its event is logged. -/
def Talk.settled (k : Talk) (status : TurnStatus) : Talk :=
  { k with
    turns := setStatus k.turnId status k.turns
    loggedTurns := Transcript.settle k.turnId status k.loggedTurns }

/-- Once the turn under way has ended, live and in the log, all turns have ended. -/
theorem Recorded.settled {k : Talk} (h : Recorded k) (hturn : UnderWay k) {status : TurnStatus}
    (hterm : status.terminal) :
  Recorded (k.settled status) ∧ StandsAt (k.settled status) .idle
  := by
  obtain ⟨_, earlier, last, hturns, hlast, hearly⟩ := hturn
  have hset := setStatus_last status (fun turn ht => (hearly turn ht).2) hlast
  rw [← hturns] at hset
  constructor
  · constructor
    · apply h.messages
    · change Transcript.settle k.turnId status k.loggedTurns = _
      rw [h.turns, ← map_standing_setStatus]
      rfl
    · apply h.depth
    intro turn hmem
    obtain ⟨t, ht, _, htdepth⟩ := mem_setStatus hmem
    rw [← htdepth]
    apply h.shallow t ht
  intro turn hmem
  change turn ∈ setStatus k.turnId status k.turns at hmem
  rw [hset] at hmem
  rcases mem_append.mp hmem with hmem | hmem
  · apply (hearly turn hmem).1
  · rw [mem_singleton.mp hmem]
    apply hterm

/-- The event of the end of a turn logs what the turn becomes. -/
theorem talk_settled (aborted : Bool) :
  (Runner.record env
    { r with
      state := updateSession r.state fun s =>
        { s with
          activeTurn := none
          turns := setStatus r.locals.turnId (if aborted then .aborted else .done) s.turns } }
    now (settledPayload aborted r.locals)).talk =
      r.talk.settled (if aborted then .aborted else .done)
  := by
  rw [talk_record]
  cases aborted with
  | true | false => rfl

/-- The turn ends live and in the log. -/
theorem recording_endTurn (h : Recorded r.talk) (hturn : UnderWay r.talk)
    (hrec : r.endsAborted ∨ usageConforms r.locals.turnUsage.toUsage) :
  (r.leave (endTurn env options now)).Recording
  := by
  have hne : r.locals.turnId ≠ "" := hturn.1
  have hconf : (settledPayload r.endsAborted r.locals).conforms := by
    rw [settledPayload]
    split
    · rw [Payload.conforms, decide_eq_true_eq]
      apply hne
    · rename_i hcompl
      rw [Payload.conforms, hrec.resolve_left hcompl, Bool.and_true, decide_eq_true_eq]
      apply hne
  have htasks : Within SameTalk (options.taskRun.toList.forM fun task =>
      emit env now (taskPayload r.endsAborted r.locals now task)) := by
    apply Within.forM
    intro task _
    apply (sameTalk_ignores env).emit_within
    rw [taskPayload]
    split
    · rfl
    · rfl
  have hset (t : Runner)
      (ht : t.talk = r.talk.settled (if r.endsAborted then .aborted else .done)) :
      ({ t with phase := .idle } : Runner).Recording := by
    change Recorded t.talk ∧ StandsAt t.talk .idle
    rw [ht]
    apply h.settled hturn
    split
    · rfl
    · rfl
  apply leave_of_wp
  rw [endTurn, wp_bind, wp_get]
  dsimp only
  rw [wp_bind, wp_update, wp_bind, wp_emit_of_conforms hconf, wp_bind]
  apply htasks.mono
  all_goals
    intro _ t ht
    apply hset t
    rw [← talk_settled]
    apply ht

/-- One step of the runner keeps what it has said recorded. -/
theorem Runner.Recording.step (hids : ∀ n, env.uuidv7 n ≠ "") (hinj : Function.Injective env.uuidv7)
    (htask : options.taskRun.all TaskRun.conforms) (hlogged : Logged env r)
    {a : Action} {t : Runner} (h : r.Recording) (ha : recordable r a)
    (hstep : step env options r a = some t) :
  t.Recording
  := by
  obtain ⟨hrec, hstand⟩ := h
  cases move_of_step hstep with
  | run hphase =>
    rw [hphase] at hstand
    apply recording_beginTurn hids hinj hlogged htask hrec hstand ha
  | interrupt => exact ⟨hrec, hstand⟩
  | pass hphase =>
    rw [hphase] at hstand
    rw [Option.isNone_iff_eq_none.mp ha]
    apply recording_attempt hrec hstand _ beginPass_returns
    · rintro _ (rfl | ⟨n, decision, rfl⟩)
      · apply hstand
      · exact ⟨hstand, hids n⟩
    · apply (sameTalk_ignores env).beginPass_within
      simp
  | chunk hphase =>
    rw [hphase] at hstand
    apply recording_attempt hrec hstand.1 (sameTalk_ignores env).receive_within
      receive_returns
    rintro _ (rfl | rfl | rfl)
    · apply hstand.1
    · apply hstand.1
    · apply hstand
  | streamEnd hphase =>
    rw [hphase] at hstand
    apply recording_endStream hrec hstand.1 hstand.2
    intro habort hsuccess
    rw [recordable, hphase] at ha
    simpa [habort, hsuccess, Except.toOption] using ha
  | streamError hphase =>
    rw [hphase] at hstand
    apply recording_caught hrec hstand.1
  | toolsEnd hphase =>
    rw [hphase] at hstand
    apply recording_endTools hids hrec hstand.1 hstand.2
    rw [recordable, hphase] at ha
    simpa using ha
  | settle hphase =>
    rw [hphase] at hstand
    apply recording_endTurn hrec hstand
    simpa [recordable] using ha

end Steps

/-! ### Runs -/

/-- A turn that has ended stands after a replay as it stood. -/
theorem map_close_of_ended {turns : List Turn} (h : ∀ turn ∈ turns, turn.status.terminal) :
  (turns.map standing).map Transcript.close = turns.map standing
  := by
  rw [map_map]
  apply map_congr_left
  intro turn hturn
  rw [Function.comp_apply, Transcript.close]
  split
  · rfl
  · next hopen => exact (hopen (h turn hturn)).elim

/-- A session of nobody's whose runs can be recorded has, once its log is replayed, the
conversation and the turns it has live, whatever subagents logged in between and whatever lines
were copied. -/
theorem conversation_replay_eq_live {env : Externals} (hids : ∀ n, env.uuidv7 n ≠ "")
    (hinj : Function.Injective env.uuidv7) {options : RunnerOptions}
    (htask : options.taskRun.all TaskRun.conforms) {state : SessionState}
    (hstate : Unused state) (hdepth : state.lineage.depth = 0) {actions : List Action} {r : Runner}
    (hok : Guarded (step env options) (fun r a => recordable r a) (.new state) actions)
    (hrun : run (step env options) (.new state) actions = some r) (hidle : r.phase = .idle)
    {delivered : List (CoreEvent × ℤ)} (hdeliv : Delivered r.events delivered)
    (hdeep : Deep delivered) {log : List StoredEvent} (hlog : Copied (sessionLog delivered) log)
    (sessionId : String) (replayOptions : ReplayOptions) (now : ℤ) :
  (replaySessionState sessionId log replayOptions now).state.messages.map said =
      r.state.messages.map said ∧
    (ownTurns (replaySessionState sessionId log replayOptions now).state.turns).map standing =
      (ownTurns r.state.turns).map standing
  := by
  have hstart : Logged env (.new state) ∧ (Runner.new state).Recording := by
    have hnew : run (step env options) (.new state) [] = some (.new state) := rfl
    use logged_of_run hstate hnew
    constructor
    · constructor
      · change [] = state.messages.map said
        rw [hstate.messages, map_nil]
      · change [] = state.turns.map standing
        rw [hstate.turns, map_nil]
      · apply hdepth
      · intro turn hturn
        change turn ∈ state.turns at hturn
        simp [hstate.turns] at hturn
    · intro turn hturn
      change turn ∈ state.turns at hturn
      simp [hstate.turns] at hturn
  obtain ⟨hlogged, hrec, hstand⟩ :=
    hok.invariant (I := fun s => Logged env s ∧ s.Recording)
      (fun s a t hs ha hstep =>
        ⟨hs.1.step hstep, hs.2.step hids hinj htask hs.1 ha hstep⟩) hstart hrun
  rw [hidle] at hstand
  have hreplay := transcriptOf_replay hdeliv hdeep (hlogged.ids.nodup hinj) hlog sessionId
    replayOptions now
  have hown : ownTurns r.state.turns = r.state.turns := by
    rw [ownTurns, filter_eq_self]
    intro turn hturn
    simpa using hrec.shallow turn hturn
  constructor
  · have hmsgs := congrArg Transcript.messages hreplay
    change _ = (transcript r.events).messages at hmsgs
    have hlive : (transcript r.events).messages = r.state.messages.map said := hrec.messages
    rw [hlive] at hmsgs
    apply hmsgs
  have hturns := congrArg Transcript.turns hreplay
  change _ = (transcript r.events).turns.map Transcript.close at hturns
  have hlive : (transcript r.events).turns = r.state.turns.map standing := hrec.turns
  have hended : (r.state.turns.map standing).map Transcript.close = r.state.turns.map standing :=
    map_close_of_ended hstand
  rw [hlive, hended] at hturns
  rw [hown]
  apply hturns

theorem conversation_replay_eq_live_answeredTurn :
  ∃ r, run (step sampleExternals .default) (.new sampleSession) answeredTurn = some r ∧
    (replaySessionState "session" (sessionLog (r.events.map fun e => (e, 12))) .default
        13).state.messages.map said = r.state.messages.map said ∧
      (ownTurns (replaySessionState "session" (sessionLog (r.events.map fun e => (e, 12))) .default
        13).state.turns).map standing = (ownTurns r.state.turns).map standing
  := by
  have hret : (run (step sampleExternals .default) (.new sampleSession) answeredTurn).any
      hasReturned := by decide +kernel
  obtain ⟨r, hrun, hidle⟩ := Option.any_eq_true _ _ |>.mp hret
  use r, hrun
  have hown : (r.events.map fun e => (e, (12 : ℤ))).map Prod.fst = r.events := by
    rw [map_map]
    apply map_id
  have hunused : Unused sampleSession := createSession_unused _ _ _ _ _ _ _
  obtain ⟨hdeliv, hdeep⟩ := (logged_of_run hunused hrun).delivered hown
  apply conversation_replay_eq_live sampleExternals_ne sampleExternals_injective rfl hunused rfl _
    hrun (hasReturned_iff.mp hidle) hdeliv hdeep .refl "session" .default 13
  decide +kernel

/-- A tool that answers, by a clock that was set back. -/
def lateOutcome : Settled :=
  { sampleOutcome with finishedAt := 5 }

/-- A message that joined the conversation before an event was thrown back is missing after a
resume. -/
theorem conversation_replay_ne_live :
  ∃ r, run (step sampleExternals .default) (.new sampleSession)
      (sampleTurn (.ok lateOutcome) ++ [.settle 8]) = some r ∧ r.phase = .idle ∧
    (replaySessionState "session" (sessionLog (r.events.map fun e => (e, 9))) .default
        10).state.messages.map said ≠ r.state.messages.map said
  := by
  have hret : (run (step sampleExternals .default) (.new sampleSession)
      (sampleTurn (.ok lateOutcome) ++ [.settle 8])).any (fun r => r.hasReturned &&
        (replaySessionState "session" (sessionLog (r.events.map fun e => (e, 9))) .default
          10).state.messages.length ≠ r.state.messages.length) := by
    decide +kernel
  obtain ⟨r, hrun, hr⟩ := Option.any_eq_true _ _ |>.mp hret
  rw [Bool.and_eq_true] at hr
  use r, hrun, hasReturned_iff.mp hr.1
  intro h
  have hlen := congrArg List.length h
  rw [length_map, length_map] at hlen
  exact of_decide_eq_true hr.2 hlen

end Core
