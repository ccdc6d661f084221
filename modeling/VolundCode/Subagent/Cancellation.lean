import VolundCode.Core.Runner

/-!
# Cancelling a subagent

A child is cancelled by the signal of its parent or by a call of `cancel` with its id. Here are
one dispatch and the turn of its child, cut at every wait, so that a cancellation can come at any
of them; the log has the cancellations, the streams that the child begins and the tools that it
executes, in their order.

A cancellation is lost if it comes before the dispatcher listens to the signal, or before the
child runs, since `run` makes a new signal (`not_quiet`). It is noticed too late if it comes
between the head of the loop and the stream, or before the tools of a finished message are
executed. In the runs where no cancellation comes at such a wait, the child begins no stream and
executes no tool after one (`quiet_of_heeded`).
-/

namespace Subagent.Cancellation

open Core Run List

/-! ### The turn of the child -/

/-- What the turn of the child waits for: its call, the events at its start, the events that say
why it leaves its loop, the decision, the prompt and the events before a stream, a chunk, the event
of a chunk, the event of an interrupted stream, the answer of the router to it, the event that
another provider is taken, the router and the events of a finished message, the tools, the events
of their results, the event of a failure, and the events at its end. -/
inductive Wait where
  | idle
  | opening
  | preparing
  | streaming (decision : RouterDecision) (current : InProgress)
  | telling (decision : RouterDecision) (current : InProgress)
  | interrupted (decision : RouterDecision) (hadPartialToolUse : Bool)
  | asking (decision : RouterDecision)
  | switching (next : RouterDecision)
  | concluding (current : InProgress)
  | awaiting
  | recording
  | leaving (exhausted : Bool)
  | failing
  | closing
  | returned

/-- The runner of a child: the signal of its turn, its flag, the variables that decide where it
goes on, and its tool uses, those whose start is being told and those that are executed. -/
structure Child where
  aborted : Bool
  pendingInterrupt : Bool
  loops : ℕ
  sticky : Option ProviderClient
  decision : Option RouterDecision
  retryDecision : Option RouterDecision
  starting : List String
  executing : List String
  wait : Wait

namespace Child

/-- A runner that has not run. -/
def new : Child where
  aborted := false
  pendingInterrupt := false
  loops := 0
  sticky := none
  decision := none
  retryDecision := none
  starting := []
  executing := []
  wait := .idle

variable (maxToolLoopsPerTurn : ℕ) (c : Child)

/-- `interrupt()`: there is no signal to abort before a turn. -/
def interrupt : Child :=
  { c with
    pendingInterrupt := true
    aborted :=
      match c.wait with
      | .idle => c.aborted
      | _ => true }

/-- `run`, up to its first wait: a new signal, and the flag is taken back. -/
def run : Child :=
  { c with
    aborted := false
    pendingInterrupt := false
    loops := 0
    sticky := none
    decision := none
    retryDecision := none
    wait := .opening }

/-- The head of the loop. -/
def loop (exhausted : Bool) : Child :=
  if c.aborted then { c with wait := .closing }
  else if exhausted then { c with wait := .leaving true }
  else if maxToolLoopsPerTurn ≤ c.loops then { c with wait := .leaving false }
  else { c with loops := c.loops + 1, wait := .preparing }

/-- The decision of a pass: that of a retry, the provider the turn sticks to, or that of the
router. -/
def choose (picked : RouterDecision) : RouterDecision :=
  match c.retryDecision with
  | some decision => decision
  | none =>
    match c.sticky with
    | some provider =>
      { provider := provider
        model := (c.decision.map RouterDecision.model).getD ""
        reason := "sticky-provider" }
    | none => picked

/-- A stream is begun. -/
def stream (picked : RouterDecision) : Child :=
  { c with
    decision := some (c.choose picked)
    retryDecision := none
    wait := .streaming (c.choose picked) .empty }

/-- A chunk of the stream. -/
def receive (decision : RouterDecision) (current : InProgress) (chunk : ProviderChunk) : Child :=
  if c.aborted then { c with wait := .closing }
  else
    match chunk with
    | .messageInterrupted _ =>
      { c with wait := .interrupted decision (!current.tools.isEmpty) }
    | .toolUseStart _ _ =>
      { c with
        sticky := c.sticky <|> some decision.provider
        wait := .streaming decision (merge current chunk) }
    | chunk =>
      { c with
        wait :=
          if (deltaFragment chunk).isSome then .telling decision (merge current chunk)
          else .streaming decision (merge current chunk) }

/-- The router answers an interrupted stream. -/
def retry (decision : RouterDecision) (next : Option RouterDecision) (exhausted : Bool) : Child :=
  match next with
  | none => { c with wait := .closing }
  | some next =>
    if c.sticky.any (· ≠ next.provider) then { c with wait := .leaving false }
    else if next.provider ≠ decision.provider then { c with wait := .switching next }
    else loop maxToolLoopsPerTurn { c with retryDecision := some next } exhausted

/-- The tool uses of a message that are executed. -/
def validTools (current : InProgress) : List String :=
  ((toolUsesOf current).filter fun tool =>
    !(endAll current).invalidTools.contains tool.id).map ToolUse.id

/-- The message is recorded: its tools are told and executed, each on its own. -/
def startTools (current : InProgress) : Child :=
  if (toolUsesOf current).isEmpty then { c with wait := .closing }
  else { c with starting := validTools current, wait := .awaiting }

/-- The events are emitted that the child waits for. -/
def emitted (exhausted : Bool) : Option Child :=
  match c.wait with
  | .opening => some (c.loop maxToolLoopsPerTurn exhausted)
  | .telling decision current => some { c with wait := .streaming decision current }
  | .interrupted _ true => some { c with wait := .leaving false }
  | .interrupted decision false => some { c with wait := .asking decision }
  | .switching next =>
    some (loop maxToolLoopsPerTurn { c with retryDecision := some next } exhausted)
  | .concluding current => some (c.startTools current)
  | .recording => some (c.loop maxToolLoopsPerTurn exhausted)
  | .leaving budget => some { c with aborted := c.aborted || budget, wait := .closing }
  | .failing => some { c with wait := .closing }
  | .closing => some { c with wait := .returned }
  | _ => none

/-- What the child waits for throws. The loop catches it. -/
def throws : Option Child :=
  match c.wait with
  | .opening | .failing | .closing => some { c with wait := .returned }
  | .idle | .awaiting | .returned => none
  | _ => some { c with wait := .failing }

/-- The stream has ended. -/
def endStream (current : InProgress) : Child :=
  if c.aborted then { c with wait := .closing } else { c with wait := .concluding current }

/-- The start of a tool use has been told, and the tool is executed. -/
def execute (id : String) : Child :=
  { c with starting := c.starting.erase id, executing := c.executing ++ [id] }

/-- A tool use fails: the turn does not wait for the others. -/
def rejectTool (id : String) : Child :=
  { c with
    starting := c.starting.erase id
    executing := c.executing.erase id
    wait :=
      match c.wait with
      | .awaiting => .failing
      | wait => wait }

end Child

/-! ### The dispatch -/

/-- Where the dispatch is: not called, with its runner being made, with its event being emitted,
with the child running, with the event of its end being emitted, or over. -/
inductive Phase where
  | idle
  | creating
  | announcing
  | running
  | settling
  | ended
  deriving DecidableEq

/-- What can be seen of a child from outside. -/
inductive Mark where
  | cancelled
  | stream
  | tool (id : String)
  deriving DecidableEq

structure State where
  parentAborted : Bool
  phase : Phase
  child : Child
  log : List Mark

def State.initial : State where
  parentAborted := false
  phase := .idle
  child := Child.new
  log := []

/-- A cancellation, a call, or the answer to what the dispatch or the child waits for. -/
inductive Action where
  | abort
  | cancel
  | dispatch (admitted : Bool)
  | created
  | factoryThrows
  | announced
  | announceRejects
  | emitted (exhausted : Bool)
  | prepared (picked : RouterDecision)
  | chunk (chunk : ProviderChunk)
  | streamEnded
  | answered (next : Option RouterDecision) (exhausted : Bool)
  | throws
  | toolStarted (id : String)
  | toolAnswered (id : String)
  | toolRejects (id : String)
  | toolsAnswered
  | settled

namespace State

variable (s : State)

/-- The dispatcher listens to the signal of the parent. -/
def listening : Bool :=
  match s.phase with
  | .running | .settling => true
  | _ => false

/-- The child counts as active. -/
def active : Bool :=
  match s.phase with
  | .announcing | .running | .settling => true
  | _ => false

/-- The signal of the parent aborts. -/
def abort : State :=
  if s.parentAborted then s
  else
    { s with
      parentAborted := true
      child := if s.listening then s.child.interrupt else s.child
      log := s.log ++ [.cancelled] }

/-- `cancel` with the id of the child. -/
def cancel : State :=
  if s.active then { s with child := s.child.interrupt, log := s.log ++ [.cancelled] } else s

/-- `dispatch`, up to its first wait. -/
def dispatch (admitted : Bool) : State :=
  if !admitted then { s with phase := .ended }
  else if s.parentAborted then { s with phase := .ended }
  else { s with phase := .creating }

/-- The turn of the child has come to another wait. -/
def goOn (c : Child) : State :=
  { s with
    child := c
    phase :=
      match c.wait with
      | .returned => .settling
      | _ => .running }

end State

/-- What happens to the dispatch. -/
def step (maxToolLoopsPerTurn : ℕ) (s : State) : Action → Option State
  | .abort => some s.abort
  | .cancel => some s.cancel
  | .dispatch admitted =>
    match s.phase with
    | .idle => some (s.dispatch admitted)
    | _ => none
  | .created =>
    match s.phase with
    | .creating => some { s with phase := .announcing }
    | _ => none
  | .factoryThrows =>
    match s.phase with
    | .creating => some { s with phase := .ended }
    | _ => none
  | .announced =>
    match s.phase with
    | .announcing => some (s.goOn s.child.run)
    | _ => none
  | .announceRejects =>
    match s.phase with
    | .announcing => some { s with phase := .ended }
    | _ => none
  | .emitted exhausted =>
    match s.phase with
    | .running => (s.child.emitted maxToolLoopsPerTurn exhausted).map s.goOn
    | _ => none
  | .prepared picked =>
    match s.phase, s.child.wait with
    | .running, .preparing =>
      some { s.goOn (s.child.stream picked) with log := s.log ++ [.stream] }
    | _, _ => none
  | .chunk chunk =>
    match s.phase, s.child.wait with
    | .running, .streaming decision current =>
      some (s.goOn (s.child.receive decision current chunk))
    | _, _ => none
  | .streamEnded =>
    match s.phase, s.child.wait with
    | .running, .streaming _ current => some (s.goOn (s.child.endStream current))
    | _, _ => none
  | .answered next exhausted =>
    match s.phase, s.child.wait with
    | .running, .asking decision =>
      some (s.goOn (s.child.retry maxToolLoopsPerTurn decision next exhausted))
    | _, _ => none
  | .throws =>
    match s.phase with
    | .running => s.child.throws.map s.goOn
    | _ => none
  | .toolStarted id =>
    if id ∈ s.child.starting then
      some { s with child := s.child.execute id, log := s.log ++ [.tool id] }
    else none
  | .toolAnswered id =>
    if id ∈ s.child.executing then
      some { s with child := { s.child with executing := s.child.executing.erase id } }
    else none
  | .toolRejects id =>
    if id ∈ s.child.starting ∨ id ∈ s.child.executing then
      some { s with child := s.child.rejectTool id }
    else none
  | .toolsAnswered =>
    match s.phase, s.child.wait, s.child.starting, s.child.executing with
    | .running, .awaiting, [], [] => some (s.goOn { s.child with wait := .recording })
    | _, _, _, _ => none
  | .settled =>
    match s.phase with
    | .settling => some { s with phase := .ended }
    | _ => none

/-! ### Cancellations -/

/-- The child begins something. -/
def Mark.isStart : Mark → Bool
  | .cancelled => false
  | .stream => true
  | .tool _ => true

/-- The child begins no stream and executes no tool after a cancellation. -/
def Quiet (log : List Mark) : Prop :=
  ∀ before after, log = before ++ .cancelled :: after → ∀ mark ∈ after, mark.isStart = false

/-- A cancellation at this wait is seen before the child begins anything. Before the turn there is
no signal that could be aborted. -/
def Wait.heeds : Wait → Bool
  | .idle => false
  | .preparing => false
  | .concluding current => (Child.validTools current).isEmpty
  | _ => true

/-- A cancellation is seen before the child begins anything: the dispatch has not been called, or
it listens and the child is not about to begin a stream or to execute a tool. -/
def State.heeds (s : State) : Bool :=
  s.child.starting.isEmpty &&
    match s.phase with
    | .creating | .announcing => false
    | .running => s.child.wait.heeds
    | .idle | .settling | .ended => true

/-- A cancellation comes when it is seen. -/
def Heeded (s : State) : Action → Prop
  | .abort => s.parentAborted = false → s.heeds
  | .cancel => s.active → s.heeds
  | _ => True

instance (s : State) : ∀ a, Decidable (Heeded s a)
  | .abort | .cancel => inferInstanceAs (Decidable (_ → _))
  | .dispatch _ | .created | .factoryThrows | .announced | .announceRejects | .emitted _
  | .prepared _ | .chunk _ | .streamEnded | .answered _ _ | .throws | .toolStarted _
  | .toolAnswered _ | .toolRejects _ | .toolsAnswered | .settled => isTrue True.intro

/-! ### The child that has been cancelled -/

/-- The turn is aborted, and the child is not about to begin anything. -/
structure Child.Stopped (c : Child) : Prop where
  aborted : c.aborted
  starting : c.starting = []
  heeds : c.wait.heeds

/-- No child begins anything from here: the dispatch will not make one, the child has been stopped,
or it is over. -/
def State.Stopped (s : State) : Prop :=
  s.child.starting = [] ∧
    match s.phase with
    | .idle => s.parentAborted
    | .creating | .announcing => False
    | .running => s.child.Stopped
    | .settling | .ended => True

namespace Child.Stopped

variable {maxToolLoopsPerTurn : ℕ} {c d : Child}

/-- A stopped child that comes to another wait. -/
theorem goOn {wait : Wait} (hc : c.Stopped) (h : wait.heeds) :
  Child.Stopped { c with wait := wait }
  := ⟨hc.aborted, hc.starting, h⟩

/-- At the head of its loop a stopped child leaves it. -/
theorem loop (habort : c.aborted) (hstart : c.starting = []) (exhausted : Bool) :
  (c.loop maxToolLoopsPerTurn exhausted).Stopped
  := by
  rw [Child.loop, if_pos habort]
  exact ⟨habort, hstart, rfl⟩

/-- An interrupt stops a child that sees it. -/
theorem interrupt (hstart : c.starting = []) (hheeds : c.wait.heeds) :
  c.interrupt.Stopped
  := by
  refine ⟨?_, hstart, hheeds⟩
  rw [Child.interrupt]
  cases hwait : c.wait with
  | idle =>
    rw [hwait] at hheeds
    cases hheeds
  | _ => rfl

theorem receive (hc : c.Stopped) (decision : RouterDecision) (current : InProgress)
    (chunk : ProviderChunk) :
  (c.receive decision current chunk).Stopped
  := by
  unfold Child.receive
  rw [if_pos hc.aborted]
  apply hc.goOn rfl

theorem endStream (hc : c.Stopped) (current : InProgress) :
  (c.endStream current).Stopped
  := by
  rw [Child.endStream, if_pos hc.aborted]
  apply hc.goOn rfl

theorem retry (hc : c.Stopped) (decision : RouterDecision) (next : Option RouterDecision)
    (exhausted : Bool) :
  (c.retry maxToolLoopsPerTurn decision next exhausted).Stopped
  := by
  cases next with
  | none => exact hc.goOn rfl
  | some next =>
  rw [Child.retry]
  split_ifs
  · apply hc.goOn rfl
  · apply hc.goOn rfl
  · apply Child.Stopped.loop
    · apply hc.aborted
    · apply hc.starting

/-- A stopped child has no tools to execute in the message it records. -/
theorem startTools {current : InProgress} (hc : c.Stopped)
    (hvalid : Child.validTools current = []) :
  (c.startTools current).Stopped
  := by
  rw [Child.startTools]
  split_ifs
  · apply hc.goOn rfl
  · exact ⟨hc.aborted, hvalid, rfl⟩

theorem emitted {exhausted : Bool} (hc : c.Stopped)
    (hd : c.emitted maxToolLoopsPerTurn exhausted = some d) :
  d.Stopped
  := by
  have hheeds := hc.heeds
  rw [Child.emitted] at hd
  split at hd
  · cases hd
    apply Child.Stopped.loop hc.aborted hc.starting
  · cases hd
    apply hc.goOn rfl
  · cases hd
    apply hc.goOn rfl
  · cases hd
    apply hc.goOn rfl
  · cases hd
    apply Child.Stopped.loop
    · apply hc.aborted
    · apply hc.starting
  · rename_i current hwait
    cases hd
    rw [hwait] at hheeds
    apply hc.startTools
    apply List.isEmpty_iff.mp hheeds
  · cases hd
    apply Child.Stopped.loop hc.aborted hc.starting
  · cases hd
    refine ⟨?_, hc.starting, rfl⟩
    rw [hc.aborted]
    rfl
  · cases hd
    apply hc.goOn rfl
  · cases hd
    apply hc.goOn rfl
  · cases hd

theorem throws (hc : c.Stopped) (hd : c.throws = some d) :
  d.Stopped
  := by
  rw [Child.throws] at hd
  split at hd
  case h_4 | h_5 | h_6 => cases hd
  all_goals
    cases hd
    apply hc.goOn rfl

theorem rejectTool (hc : c.Stopped) (id : String) :
  (c.rejectTool id).Stopped
  := by
  constructor
  · exact hc.aborted
  · rw [Child.rejectTool, hc.starting]
    rfl
  have hheeds := hc.heeds
  rw [Child.rejectTool]
  dsimp only
  split
  · rfl
  · exact hheeds

end Child.Stopped

/-! ### The log -/

section Steps

variable {maxToolLoopsPerTurn : ℕ} {s t : State} {a : Action}

theorem State.Stopped.goOn {c : Child} (h : c.Stopped) :
  (s.goOn c).Stopped
  := by
  have hphase : (s.goOn c).phase = .settling ∨ (s.goOn c).phase = .running := by
    rw [State.goOn]
    cases c.wait with
    | returned => exact Or.inl rfl
    | _ => exact Or.inr rfl
  use h.starting
  rcases hphase with hphase | hphase
  · rw [hphase]
    exact True.intro
  · rw [hphase]
    exact h

/-- A call of `cancel` that is seen stops the child. -/
theorem stopped_cancel (hact : s.active) (h : s.heeds) :
  s.cancel.Stopped
  := by
  obtain ⟨hstart, hheeds⟩ := Bool.and_eq_true_iff.mp h
  have hnone := List.isEmpty_iff.mp hstart
  rw [State.cancel, if_pos hact]
  use hnone
  rw [State.active] at hact
  dsimp only
  cases hphase : s.phase with
  | idle | creating | ended =>
    rw [hphase] at hact
    cases hact
  | announcing =>
    rw [hphase] at hheeds
    cases hheeds
  | running =>
    rw [hphase] at hheeds
    apply Child.Stopped.interrupt hnone hheeds
  | settling => exact True.intro

/-- A signal of the parent that is seen stops the child. -/
theorem stopped_abort (habort : s.parentAborted = false) (h : s.heeds) :
  s.abort.Stopped
  := by
  obtain ⟨hstart, hheeds⟩ := Bool.and_eq_true_iff.mp h
  have hnone := List.isEmpty_iff.mp hstart
  rw [State.abort, habort, if_neg Bool.false_ne_true]
  constructor
  · dsimp only
    split_ifs
    all_goals exact hnone
  dsimp only
  rw [State.listening]
  cases hphase : s.phase with
  | creating | announcing =>
    rw [hphase] at hheeds
    cases hheeds
  | running =>
    rw [hphase] at hheeds
    exact Child.Stopped.interrupt hnone hheeds
  | idle => rfl
  | settling | ended => exact True.intro

theorem State.Stopped.heeds (hs : s.Stopped) :
  s.heeds
  := by
  obtain ⟨hstart, hphase⟩ := hs
  rw [State.heeds, hstart]
  cases h : s.phase with
  | creating | announcing =>
    rw [h] at hphase
    cases hphase
  | running =>
    rw [h] at hphase
    exact hphase.heeds
  | idle | settling | ended => rfl

/-- The child of a dispatch that runs is stopped if the dispatch is. -/
theorem State.Stopped.child (hs : s.Stopped) (hphase : s.phase = .running) :
  s.child.Stopped
  := by
  have h := hs.2
  rw [hphase] at h
  apply h

/-- What is over stays over. -/
theorem State.Stopped.ended {c : Child} {log : List Mark} (h : c.starting = []) :
  State.Stopped ⟨s.parentAborted, .ended, c, log⟩
  := ⟨h, True.intro⟩

/-- A tool use that is over leaves a dispatch stopped. -/
theorem State.Stopped.replace {c : Child} (hs : s.Stopped) (hstart : c.starting = [])
    (h : s.child.Stopped → c.Stopped) :
  State.Stopped { s with child := c }
  := by
  use hstart
  have hphase := hs.2
  dsimp only
  cases hwas : s.phase with
  | running =>
    rw [hwas] at hphase
    exact h hphase
  | idle | creating | announcing | settling | ended =>
    rw [hwas] at hphase
    exact hphase

/-- From a state in which no child begins anything, every step leads to such a state. -/
theorem State.Stopped.step (hs : s.Stopped) (ht : step maxToolLoopsPerTurn s a = some t) :
  t.Stopped
  := by
  cases a with
  | abort =>
    cases ht
    cases habort : s.parentAborted with
    | true =>
      rw [State.abort, if_pos habort]
      apply hs
    | false => exact stopped_abort habort hs.heeds
  | cancel =>
    cases ht
    cases hact : s.active with
    | true => exact stopped_cancel hact hs.heeds
    | false =>
      rw [State.cancel, hact, if_neg Bool.false_ne_true]
      apply hs
  | dispatch admitted =>
    rw [Cancellation.step] at ht
    split at ht
    · rename_i hphase
      cases ht
      have habort := hs.2
      rw [hphase] at habort
      rw [State.dispatch, if_pos habort]
      split_ifs
      all_goals exact State.Stopped.ended hs.1
    · cases ht
  | created | factoryThrows | announced | announceRejects =>
    rw [Cancellation.step] at ht
    split at ht
    · rename_i hphase
      have hnone := hs.2
      rw [hphase] at hnone
      cases hnone
    · cases ht
  | emitted exhausted =>
    rw [Cancellation.step] at ht
    split at ht
    · rename_i hphase
      obtain ⟨c, hc, rfl⟩ := Option.map_eq_some_iff.mp ht
      apply State.Stopped.goOn
      apply (hs.child hphase).emitted hc
    · cases ht
  | prepared picked =>
    rw [Cancellation.step] at ht
    split at ht
    · rename_i hphase hwait
      have hheeds := (hs.child hphase).heeds
      rw [hwait] at hheeds
      cases hheeds
    · cases ht
  | chunk chunk =>
    rw [Cancellation.step] at ht
    split at ht
    · rename_i hphase hwait
      cases ht
      apply State.Stopped.goOn
      apply (hs.child hphase).receive
    · cases ht
  | streamEnded =>
    rw [Cancellation.step] at ht
    split at ht
    · rename_i hphase hwait
      cases ht
      apply State.Stopped.goOn
      apply (hs.child hphase).endStream
    · cases ht
  | answered next exhausted =>
    rw [Cancellation.step] at ht
    split at ht
    · rename_i hphase hwait
      cases ht
      apply State.Stopped.goOn
      apply (hs.child hphase).retry
    · cases ht
  | throws =>
    rw [Cancellation.step] at ht
    split at ht
    · rename_i hphase
      obtain ⟨c, hc, rfl⟩ := Option.map_eq_some_iff.mp ht
      apply State.Stopped.goOn
      apply (hs.child hphase).throws hc
    · cases ht
  | toolStarted id =>
    rw [Cancellation.step, hs.1] at ht
    cases ht
  | toolAnswered id =>
    rw [Cancellation.step] at ht
    split_ifs at ht
    cases ht
    apply hs.replace
    · apply hs.1
    · intro h
      exact ⟨h.aborted, h.starting, h.heeds⟩
  | toolRejects id =>
    rw [Cancellation.step] at ht
    split_ifs at ht
    cases ht
    have hnone : (s.child.rejectTool id).starting = [] := by
      rw [Child.rejectTool, hs.1]
      rfl
    apply hs.replace hnone
    intro h
    apply h.rejectTool
  | toolsAnswered =>
    rw [Cancellation.step] at ht
    split at ht
    · rename_i hphase hwait _ _
      cases ht
      apply State.Stopped.goOn
      exact (hs.child hphase).goOn rfl
    · cases ht
  | settled =>
  rw [Cancellation.step] at ht
  split at ht
  · cases ht
    exact State.Stopped.ended hs.1
  · cases ht

/-- What a step writes into the log: nothing, a cancellation, or what a child begins that has not
been stopped. -/
theorem log_step (ht : step maxToolLoopsPerTurn s a = some t) :
  t.log = s.log ∨ (t.log = s.log ++ [.cancelled] ∧ (Heeded s a → t.Stopped)) ∨
    ∃ mark : Mark, mark.isStart ∧ t.log = s.log ++ [mark] ∧ ¬ s.Stopped
  := by
  cases a with
  | abort =>
    cases ht
    cases habort : s.parentAborted with
    | true =>
      left
      rw [State.abort, if_pos habort]
    | false =>
    right
    left
    constructor
    · rw [State.abort, habort]
      rfl
    · intro hok
      apply stopped_abort habort (hok habort)
  | cancel =>
    cases ht
    cases hact : s.active with
    | true =>
      right
      left
      constructor
      · rw [State.cancel, if_pos hact]
      · intro hok
        apply stopped_cancel hact (hok hact)
    | false =>
      left
      rw [State.cancel, hact]
      rfl
  | prepared picked =>
    rw [Cancellation.step] at ht
    split at ht
    · rename_i hphase hwait
      cases ht
      right
      right
      use .stream, rfl, rfl
      intro hs
      have hheeds := (hs.child hphase).heeds
      rw [hwait] at hheeds
      cases hheeds
    · cases ht
  | toolStarted id =>
    rw [Cancellation.step] at ht
    split_ifs at ht with hid
    cases ht
    right
    right
    use .tool id, rfl, rfl
    intro hs
    rw [hs.1] at hid
    cases hid
  | dispatch admitted =>
    left
    rw [Cancellation.step] at ht
    split at ht
    · cases ht
      rw [State.dispatch]
      split_ifs <;> rfl
    · cases ht
  | emitted | throws =>
    left
    rw [Cancellation.step] at ht
    split at ht
    · obtain ⟨c, hc, rfl⟩ := Option.map_eq_some_iff.mp ht
      rfl
    · cases ht
  | toolAnswered | toolRejects =>
    left
    rw [Cancellation.step] at ht
    split_ifs at ht
    cases ht
    rfl
  | created | factoryThrows | announced | announceRejects | chunk | streamEnded | answered
  | toolsAnswered | settled =>
  left
  rw [Cancellation.step] at ht
  split at ht
  · cases ht
    rfl
  · cases ht

end Steps

/-! ### Runs -/

/-- A log stays quiet with one more mark if that is no start after a cancellation. -/
theorem Quiet.append_one {log : List Mark} {mark : Mark} (h : Quiet log)
    (hmark : .cancelled ∈ log → mark.isStart = false) :
  Quiet (log ++ [mark])
  := by
  intro before after heq m hm
  rcases eq_nil_or_concat after with rfl | ⟨rest, last, rfl⟩
  · cases hm
  rw [concat_eq_append, ← cons_append, ← append_assoc] at heq
  obtain ⟨hlog, hlast⟩ := append_inj' heq rfl
  obtain rfl := (List.cons.inj hlast).1
  rw [concat_eq_append, mem_append] at hm
  rcases hm with hm | hm
  · apply h before rest hlog m hm
  rw [mem_singleton.mp hm]
  apply hmark
  rw [hlog]
  simp

/-- No start has come after a cancellation, and none will come after one that has come. -/
structure Settled (s : State) : Prop where
  quiet : Quiet s.log
  stopped : .cancelled ∈ s.log → s.Stopped

theorem Settled.initial : Settled State.initial where
  quiet := by
    intro before after h
    have hlen := congrArg List.length h
    simp [State.initial] at hlen
  stopped := by
    intro h
    cases h

/-- A step whose cancellation is seen keeps a dispatch settled. -/
theorem Settled.step {maxToolLoopsPerTurn : ℕ} {s t : State} {a : Action} (hs : Settled s)
    (hok : Heeded s a) (ht : step maxToolLoopsPerTurn s a = some t) :
  Settled t
  := by
  rcases log_step ht with hlog | ⟨hlog, hstop⟩ | ⟨mark, hstart, hlog, hruns⟩
  · constructor
    · rw [hlog]
      apply hs.quiet
    · intro hmem
      rw [hlog] at hmem
      apply (hs.stopped hmem).step ht
  · constructor
    · rw [hlog]
      apply hs.quiet.append_one
      intro _
      rfl
    · intro _
      apply hstop hok
  have hnone : .cancelled ∉ s.log := fun hmem => hruns (hs.stopped hmem)
  constructor
  · rw [hlog]
    apply hs.quiet.append_one
    intro hmem
    exact absurd hmem hnone
  intro hmem
  rw [hlog, mem_append, mem_singleton] at hmem
  rcases hmem with hmem | rfl
  · exact absurd hmem hnone
  · cases hstart

/-- In every run whose cancellations come when they are seen, the child begins no stream and
executes no tool after one. -/
theorem quiet_of_heeded
    (maxToolLoopsPerTurn : ℕ) (as : List Action) (s : State)
    (hok : Guarded (step maxToolLoopsPerTurn) Heeded State.initial as)
    (hrun : run (step maxToolLoopsPerTurn) State.initial as = some s) :
  Quiet s.log
  := by
  have hset : Settled s :=
    hok.invariant (fun _ _ _ hs hok ht => hs.step hok ht) Settled.initial hrun
  apply hset.quiet

/-- The decision of a router. -/
def sampleDecision : RouterDecision where
  provider := ⟨0, "p"⟩
  model := "m"
  reason := "only"

/-- A child that is cancelled while it reads a stream. -/
def cancelledInStream : List Action :=
  [.dispatch true, .created, .announced, .emitted false, .prepared sampleDecision,
    .chunk (.textDelta "a"), .abort, .emitted false, .chunk (.textDelta "b"), .emitted false,
    .settled]

theorem quiet_of_heeded_cancelledInStream :
  ∃ s, run (step 25) State.initial cancelledInStream = some s ∧ Quiet s.log
  := by
  have hsome : (run (step 25) State.initial cancelledInStream).isSome := by
    decide +kernel
  have hok : Guarded (step 25) Heeded State.initial cancelledInStream := by
    decide +kernel
  obtain ⟨s, hs⟩ := Option.isSome_iff_exists.mp hsome
  use s, hs
  apply quiet_of_heeded 25 cancelledInStream s hok hs

/-- The signal of the parent aborts while the runner of the child is made. -/
def cancelledEarly : List Action :=
  [.dispatch true, .abort, .created, .announced, .emitted false, .prepared sampleDecision]

/-- The child begins a stream after it has been cancelled. -/
theorem not_quiet :
  ¬ ∀ maxToolLoopsPerTurn as s, run (step maxToolLoopsPerTurn) State.initial as = some s →
    Quiet s.log
  := by
  intro h
  have hlog : (run (step 25) State.initial cancelledEarly).map State.log =
      some [.cancelled, .stream] := by
    decide +kernel
  obtain ⟨s, hrun, hlog⟩ := Option.map_eq_some_iff.mp hlog
  have hquiet := h 25 cancelledEarly s hrun
  have hstart := hquiet [] [.stream] hlog .stream (mem_singleton_self _)
  cases hstart

end Subagent.Cancellation
