import VolundCode.Lib.Run
import VolundCode.Subagent.Registry

/-!
# The subagent dispatcher

`SubagentDispatcher.dispatch` runs a child session for a parent: it checks the depth, the number
of active children, the agent type and the budget, has a runner made for the child, tells the
journal of the parent, lets the child run, and tells the journal how it ended. Several dispatches
go on at once, and each of their waits lets the others go on.

The number of active children is checked before the runner is made and counted after it, and it is
taken back only behind the event that tells of the dispatch. So there can be more children than
there should, and a child whose event fails counts for ever (`not_bounded`). The bound holds, and
all is taken back in the end, in the runs where a dispatch is admitted only if there is room also
for those whose runner is being made, where no event of a dispatch fails and where no runner is
given out twice (`bounded_of_fitting`).
-/

namespace Subagent

open Core ProviderKit Run List

/-! ### The options -/

/-- The dispatcher. The sessions that it makes have ids of their own. -/
structure SubagentDispatcher where
  maxDepth : ℕ
  maxConcurrency : ℕ
  defaultBudget : Option Budget
  agents : Option (List String)
  runHistoryLimit : ℕ
  uuidv7 : ℕ → String

structure SubagentOptions where
  defaultBudget : Option Budget
  maxDepth : Option ℕ
  maxConcurrency : Option ℕ
  agents : Option (List String)
  runHistoryLimit : Option ℕ

/-- The constructor. -/
def SubagentDispatcher.create (o : SubagentOptions) (uuidv7 : ℕ → String) :
    SubagentDispatcher where
  maxDepth := min (o.maxDepth.getD 3) 3
  maxConcurrency := max 1 (o.maxConcurrency.getD 4)
  defaultBudget := o.defaultBudget
  agents := o.agents
  runHistoryLimit := o.runHistoryLimit.getD 100
  uuidv7 := uuidv7

def builtinAgentTypes : List String :=
  ["main", "task-agent", "review-agent", "planner", "coder", "reviewer"]

/-! ### Dispatches -/

structure DispatchParent where
  state : SessionState
  turnId : String

structure DispatchInput where
  prompt : String
  agentType : Option String
  budget : Option Budget

inductive BudgetDimension where
  | tokenMax
  | costUSDMax
  | timeMsMax
  | toolCallMax
  deriving DecidableEq, Repr

def BudgetDimension.of : BudgetDimension → Budget → Option ℚ
  | .tokenMax, b => b.tokenMax
  | .costUSDMax, b => b.costUSDMax
  | .timeMsMax, b => b.timeMsMax
  | .toolCallMax, b => b.toolCallMax

def budgetDimensions : List BudgetDimension :=
  [.tokenMax, .costUSDMax, .timeMsMax, .toolCallMax]

/-- What a dispatch throws before it begins. -/
inductive DispatchError where
  | depthExceeded (depth maxDepth : ℕ)
  | concurrencyExceeded
  | unknownAgent (agentType : String) (known : List String)
  | budgetExceedsDefault (dimension : BudgetDimension) (requested ceiling : ℚ)
  deriving DecidableEq

def DispatchError.code : DispatchError → String
  | .depthExceeded _ _ => "VOLUND_SUBAGENT_DEPTH_EXCEEDED"
  | .concurrencyExceeded => "VOLUND_SUBAGENT_CONCURRENCY_EXCEEDED"
  | .unknownAgent _ _ => "VOLUND_SUBAGENT_UNKNOWN_AGENT"
  | .budgetExceedsDefault _ _ _ => "VOLUND_SUBAGENT_BUDGET_EXCEEDS_DEFAULT"

/-- A name that is not empty. -/
def named (name : Option String) : Option String :=
  name.filter fun n => n ≠ ""

/-- The text up to its first line feed. -/
def firstLine (prompt : String) : String :=
  String.ofList (prompt.toList.takeWhile (· ≠ '\n'))

def promptDigestOf (prompt : String) : String :=
  let line := firstLine prompt
  let digest :=
    if 80 < (Ecma.units line).length then Ecma.sliceTo line 79 ++ "…" else line
  if digest ≠ "" then digest
  else if Ecma.sliceTo prompt 80 ≠ "" then Ecma.sliceTo prompt 80
  else "(empty prompt)"

def estimateTokens (text : String) : ℕ :=
  ((Ecma.units text).length + 3) / 4

/-- The text of the last message of the assistant. -/
def lastAssistantText (messages : List Message) : String :=
  match messages.reverse.find? fun m => m.role = .assistant with
  | none => ""
  | some m => "\n".intercalate (m.content.filterMap fun
      | .text text => some text
      | _ => none)

namespace SubagentDispatcher

variable (d : SubagentDispatcher)

/-- The first dimension in which a requested budget exceeds the default. -/
def exceeding (input defaults : Budget) : Option DispatchError :=
  budgetDimensions.findSome? fun dimension =>
    match dimension.of input, dimension.of defaults with
    | some requested, some ceiling =>
      if ceiling < requested then some (.budgetExceedsDefault dimension requested ceiling) else none
    | _, _ => none

/-- `#resolveBudget`: a requested budget can only tighten the default, in each dimension. -/
def resolveBudget (input : Option Budget) : Except DispatchError Budget :=
  match input with
  | none => .ok (d.defaultBudget.getD ⟨none, none, none, none⟩)
  | some input =>
    match d.defaultBudget.bind (exceeding input) with
    | some e => .error e
    | none =>
      let merged := fun dimension : BudgetDimension =>
        (dimension.of input).or (d.defaultBudget.bind dimension.of)
      .ok ⟨merged .tokenMax, merged .costUSDMax, merged .timeMsMax, merged .toolCallMax⟩

/-- `#resolveAgentType`: the agent type is registered or built in. -/
def resolveAgentType (agentType : Option String) : Except DispatchError Unit :=
  match named agentType, d.agents with
  | some name, some agents =>
    if agents.contains name ∨ builtinAgentTypes.contains name then .ok ()
    else .error (.unknownAgent name (builtinAgentTypes ++ agents))
  | _, _ => .ok ()

/-- What a dispatch checks at once: its depth, the number of active children, its agent type and
its budget. -/
def admission (activeCount : ℕ) (parent : DispatchParent) (input : DispatchInput) :
    Except DispatchError Budget :=
  if d.maxDepth < parent.state.lineage.depth + 1 then
    .error (.depthExceeded (parent.state.lineage.depth + 1) d.maxDepth)
  else if d.maxConcurrency ≤ activeCount then .error .concurrencyExceeded
  else
    match d.resolveAgentType input.agentType with
    | .error e => .error e
    | .ok () => d.resolveBudget input.budget

end SubagentDispatcher

/-! ### Dispatches that go on -/

/-- What a dispatch returns when its child has been settled. -/
inductive DispatchStatus where
  | completed
  | partially
  | failed
  | cancelled
  deriving DecidableEq, Repr

/-- What a dispatch waits for: the runner, the event that tells of the dispatch, the run, or the
event that tells of its end. An event is `delivered` if it meets its contract and so reaches the
journal. A failed run is `caught`. -/
inductive Phase where
  | creating
  | announcing (runner : ℕ) (entry : SubagentRunEntry) (delivered : Bool)
  | running (runner : ℕ) (entry : SubagentRunEntry)
  | settling (runner : ℕ) (entry : SubagentRunEntry) (delivered caught : Bool)
      (status : DispatchStatus)
  | ended

/-- The runner of a child that counts as active. -/
def Phase.runner : Phase → Option ℕ
  | .announcing runner _ _ => some runner
  | .running runner _ => some runner
  | .settling runner _ _ _ _ => some runner
  | _ => none

/-- The runner is being made. -/
def Phase.isCreating : Phase → Bool
  | .creating => true
  | _ => false

/-- The dispatch has come to its end. -/
def Phase.hasEnded : Phase → Bool
  | .ended => true
  | _ => false

structure Dispatch where
  parent : DispatchParent
  input : DispatchInput
  budget : Budget
  sessionId : String
  phase : Phase

/-- The depth of the child. -/
def Dispatch.depth (x : Dispatch) : ℕ :=
  x.parent.state.lineage.depth + 1

structure State where
  active : List ℕ
  activeBySession : String → Option ℕ
  runs : List SubagentRunEntry
  cancelledRuns : List String
  journal : List SubagentJournalEvent
  dispatches : List Dispatch

def State.initial : State where
  active := []
  activeBySession _ := none
  runs := []
  cancelledRuns := []
  journal := []
  dispatches := []

def State.activeCount (s : State) : ℕ :=
  s.active.length

/-- The dispatch comes to another phase. -/
def State.goOn (s : State) (i : ℕ) (x : Dispatch) (phase : Phase) : State :=
  { s with dispatches := s.dispatches.set i { x with phase := phase } }

/-- An event is emitted on the bus of the parent. It reaches the journal if it meets its
contract. -/
def State.emit (s : State) (x : Dispatch) (time : ℤ) (payload : EventPayload) : State :=
  if payload.conforms then
    { s with journal := s.journal ++ [⟨x.parent.state.id, x.parent.turnId, time, payload⟩] }
  else s

/-- The entry that a run begins with. -/
def beginEntry (d : SubagentDispatcher) (x : Dispatch) (now : ℤ) : SubagentRunEntry where
  sessionId := x.sessionId
  parentSessionId := x.parent.state.id
  agentType := named x.input.agentType
  depth := x.depth
  status := .running
  startedAt := now
  endedAt := none
  promptPreview := promptDigestOf x.input.prompt
  prompt :=
    if 2000 < (Ecma.units x.input.prompt).length then Ecma.sliceTo x.input.prompt 1999 ++ "…"
    else x.input.prompt
  budget := if x.input.budget.isSome ∨ d.defaultBudget.isSome then some x.budget else none
  usage := none
  toolCalls := none
  detail := none

/-- The event that tells of a dispatch. -/
def dispatchedPayload (x : Dispatch) (entry : SubagentRunEntry) : DispatchedPayload where
  sessionId := x.sessionId
  parentSessionId := x.parent.state.id
  parentTurnId := x.parent.turnId
  agentType := named x.input.agentType
  depth := x.depth
  isolationTier := 0
  fork := false
  budget := eventBudgetOf x.budget
  promptDigest := entry.promptPreview
  ctxIn := estimateTokens x.input.prompt

/-- How many tool uses there are in the messages. -/
def toolUseCount (messages : List Message) : ℕ :=
  (messages.map fun m => m.useIds.length).sum

/-- The entry of a run that has ended. A run that the user cancelled is cancelled, however it
ended. -/
def finishedEntry (cancelled : Bool) (entry : SubagentRunEntry) (status : SubagentRunStatus)
    (final : Option SessionState) (detail : Option String) (now : ℤ) : SubagentRunEntry :=
  { entry with
    status := if cancelled then .cancelled else status
    endedAt := some now
    usage := match final with
      | some final => some ⟨final.cumulativeUsage.input, final.cumulativeUsage.output,
          final.cumulativeUsage.costUSD⟩
      | none => entry.usage
    toolCalls := match final with
      | some final => some (toolUseCount final.messages)
      | none => entry.toolCalls
    detail := (named detail).or entry.detail }

/-- `#finishRun`, with the entry as it is then. -/
def State.finishRun (s : State) (entry : SubagentRunEntry) (status : SubagentRunStatus)
    (final : Option SessionState) (detail : Option String) (now : ℤ) :
    State × SubagentRunEntry :=
  let finished := finishedEntry (s.cancelledRuns.contains entry.sessionId) entry status final
    detail now
  ({ s with
      runs := s.runs.map fun e => if e.sessionId = entry.sessionId then finished else e
      cancelledRuns := s.cancelledRuns.filter (· ≠ entry.sessionId) },
    finished)

/-- The status that a settled event reports for that of an entry. -/
def SubagentRunStatus.settled : SubagentRunStatus → SettledStatus
  | .failed => .failed
  | .cancelled => .cancelled
  | _ => .completed

/-- The event that tells of the end of a run. -/
def settledPayload (entry : SubagentRunEntry) (ctxOut : ℕ) (later : ℤ) : SettledPayload where
  sessionId := entry.sessionId
  status := entry.status.settled
  usage :=
    { input := (entry.usage.map RunUsage.input).getD 0
      output := (entry.usage.map RunUsage.output).getD 0
      cacheRead := none
      cacheWrite := none
      costUSD := entry.usage.map RunUsage.costUSD }
  ctxOut := ctxOut
  toolCalls := entry.toolCalls.getD 0
  durationMs := (entry.endedAt.getD later - entry.startedAt).toNat
  detail := named entry.detail

/-- The run is finished and its end is told. -/
def State.settle (s : State) (i : ℕ) (x : Dispatch) (runner : ℕ) (entry : SubagentRunEntry)
    (caught : Bool) (status : SubagentRunStatus) (final : Option SessionState)
    (detail : Option String) (ctxOut : ℕ) (result : DispatchStatus) (now later : ℤ) : State :=
  let finished := s.finishRun entry status final detail now
  let payload := EventPayload.settled (settledPayload finished.2 ctxOut later)
  (finished.1.emit x later payload).goOn i x
    (.settling runner finished.2 payload.conforms caught result)

/-- The child no longer counts as active. -/
def State.release (s : State) (i : ℕ) (x : Dispatch) (runner : ℕ) : State :=
  { s.goOn i x .ended with
    active := s.active.filter (· ≠ runner)
    activeBySession := Function.update s.activeBySession x.sessionId none }

/-- The detail of a run whose budget was exhausted. -/
def exhaustedDetail : String :=
  "budget exhausted, partial result"

/-- The turn of the run was aborted. -/
def lastTurnAborted (final : SessionState) : Bool :=
  final.turns.getLast?.any fun turn => turn.status = .aborted

/-- What is done with a run that has ended. -/
def State.finish (s : State) (i : ℕ) (x : Dispatch) (runner : ℕ) (entry : SubagentRunEntry)
    (final : SessionState) (aborted : Bool) (now later : ℤ) : State :=
  let text := lastAssistantText final.messages
  if aborted then
    s.settle i x runner entry false .cancelled (some final) none (estimateTokens text) .cancelled
      now later
  else if lastTurnAborted final then
    s.settle i x runner entry false .partially (some final) (some exhaustedDetail)
      (estimateTokens (Ecma.trim (text ++ "\n[" ++ exhaustedDetail ++ "]"))) .partially now later
  else
    s.settle i x runner entry false .completed (some final) none (estimateTokens text) .completed
      now later

/-- The runner has been made: the child counts as active, its run begins and is told. -/
def State.announce (d : SubagentDispatcher) (s : State) (i : ℕ) (x : Dispatch) (runner : ℕ)
    (now later : ℤ) : State :=
  let entry := beginEntry d x now
  let payload := EventPayload.dispatched (dispatchedPayload x entry)
  ({ s with
      active := if s.active.contains runner then s.active else s.active ++ [runner]
      activeBySession := Function.update s.activeBySession x.sessionId (some runner)
      runs := keepNewest d.runHistoryLimit (s.runs ++ [entry]) }.emit x later payload).goOn i x
    (.announcing runner entry payload.conforms)

/-- A call of the dispatcher, or what a dispatch has waited for. A run returns the state of its
session or throws, and the signal of the parent may be aborted by then. -/
inductive Action where
  | dispatch (parent : DispatchParent) (input : DispatchInput) (aborted : Bool)
  | created (i runner : ℕ) (now later : ℤ)
  | factoryThrows (i : ℕ)
  | announced (i : ℕ)
  | announceRejects (i : ℕ)
  | ran (i : ℕ) (final : SessionState) (aborted : Bool) (now later : ℤ)
  | runThrows (i : ℕ) (cause : String) (now later : ℤ)
  | settled (i : ℕ)
  | settleRejects (i : ℕ) (cause : String) (now later : ℤ)
  | cancel (sessionId : String)
  | cancelAllRunning

/-- `dispatch`, up to its first wait. -/
def State.dispatch (d : SubagentDispatcher) (s : State) (parent : DispatchParent)
    (input : DispatchInput) (aborted : Bool) : State :=
  match d.admission s.activeCount parent input with
  | .error _ => s
  | .ok budget =>
    if aborted then s
    else { s with dispatches := s.dispatches ++
      [⟨parent, input, budget, d.uuidv7 s.dispatches.length, .creating⟩] }

def State.cancel (s : State) (sessionId : String) : State :=
  match s.activeBySession sessionId with
  | none => s
  | some _ => { s with cancelledRuns := sessionId :: s.cancelledRuns.filter (· ≠ sessionId) }

/-- The sessions of the children that count as active. -/
def State.activeSessions (s : State) : List String :=
  (s.dispatches.map (·.sessionId)).filter fun id => (s.activeBySession id).isSome

def State.cancelAllRunning (s : State) : State :=
  s.activeSessions.foldl (fun s id => s.cancel id) s

/-- A dispatch goes on in its phase. -/
def State.resume (d : SubagentDispatcher) (s : State) (i : ℕ) (x : Dispatch) :
    Action → Option State
  | .created _ runner now later =>
    match x.phase with
    | .creating => some (s.announce d i x runner now later)
    | _ => none
  | .factoryThrows _ =>
    match x.phase with
    | .creating => some (s.goOn i x .ended)
    | _ => none
  | .announced _ =>
    match x.phase with
    | .announcing runner entry true => some (s.goOn i x (.running runner entry))
    | _ => none
  | .announceRejects _ =>
    match x.phase with
    | .announcing _ _ _ => some (s.goOn i x .ended)
    | _ => none
  | .ran _ final aborted now later =>
    match x.phase with
    | .running runner entry => some (s.finish i x runner entry final aborted now later)
    | _ => none
  | .runThrows _ cause now later =>
    match x.phase with
    | .running runner entry =>
      some (s.settle i x runner entry true .failed none (some cause) 0 .failed now later)
    | _ => none
  | .settled _ =>
    match x.phase with
    | .settling runner _ true _ _ => some (s.release i x runner)
    | _ => none
  | .settleRejects _ cause now later =>
    match x.phase with
    | .settling runner entry _ false _ =>
      some (s.settle i x runner entry true .failed none (some cause) 0 .failed now later)
    | .settling runner _ _ true _ => some (s.release i x runner)
    | _ => none
  | _ => none

/-- The dispatch that an action is about, if it is about one that goes on. -/
def Action.index : Action → Option ℕ
  | .created i _ _ _ => some i
  | .factoryThrows i => some i
  | .announced i => some i
  | .announceRejects i => some i
  | .ran i _ _ _ _ => some i
  | .runThrows i _ _ _ => some i
  | .settled i => some i
  | .settleRejects i _ _ _ => some i
  | _ => none

def step (d : SubagentDispatcher) (s : State) (a : Action) : Option State :=
  match a with
  | .dispatch parent input aborted => some (s.dispatch d parent input aborted)
  | .cancel sessionId => some (s.cancel sessionId)
  | .cancelAllRunning => some s.cancelAllRunning
  | a =>
    match a.index with
    | none => none
    | some i => s.dispatches[i]?.bind fun x => s.resume d i x a

/-! ### The bound -/

/-- The runners of the children that are active. -/
def State.runners (s : State) : List ℕ :=
  s.dispatches.filterMap fun x => x.phase.runner

/-- How many dispatches have their runner made. -/
def State.creating (s : State) : ℕ :=
  s.dispatches.countP fun x => x.phase.isCreating

/-- No more children are active than may be, and none counts as active when all dispatches are
over. -/
structure Bounded (d : SubagentDispatcher) (s : State) : Prop where
  count : s.activeCount ≤ d.maxConcurrency
  runners : s.runners.length ≤ d.maxConcurrency
  released : (∀ x ∈ s.dispatches, x.phase.hasEnded) → s.activeCount = 0

/-- A dispatch is admitted only if there is room for it beside the children that are active and
those whose runner is being made, no runner is given out twice, and no event of a dispatch
fails. -/
def Fitting (d : SubagentDispatcher) (s : State) : Action → Prop
  | .dispatch parent input aborted =>
    (d.admission s.activeCount parent input).toOption.isSome → aborted = false →
      s.activeCount + s.creating < d.maxConcurrency
  | .created _ runner _ _ => runner ∉ s.active
  | .announceRejects _ => False
  | _ => True

instance (d : SubagentDispatcher) (s : State) : ∀ a, Decidable (Fitting d s a)
  | .dispatch _ _ _ => inferInstanceAs (Decidable (_ → _ → _))
  | .created _ runner _ _ => inferInstanceAs (Decidable (runner ∉ s.active))
  | .announceRejects _ => isFalse id
  | .factoryThrows _ | .announced _ | .ran _ _ _ _ _ | .runThrows _ _ _ _ | .settled _
  | .settleRejects _ _ _ _ | .cancel _ | .cancelAllRunning => isTrue True.intro

/-- The active children are those of the dispatches, each once, and with those whose runner is
being made they are no more than may be. -/
structure Fitted (d : SubagentDispatcher) (s : State) : Prop where
  active : s.active.Perm s.runners
  distinct : s.active.Nodup
  room : s.runners.length + s.creating ≤ d.maxConcurrency

theorem Fitted.initial (d : SubagentDispatcher) : Fitted d State.initial where
  active := Perm.nil
  distinct := nodup_nil
  room := Nat.zero_le _

variable {x : Dispatch} {i : ℕ}

/-- A dispatch and the others, before and after it comes to another phase. -/
theorem exists_others {xs : List Dispatch} (h : xs[i]? = some x) :
  ∃ others, xs.Perm (x :: others) ∧
    ∀ phase, (xs.set i { x with phase := phase }).Perm ({ x with phase := phase } :: others)
  := by
  obtain ⟨hi, rfl⟩ := List.getElem?_eq_some_iff.mp h
  use xs.eraseIdx i, (getElem_cons_eraseIdx_perm hi).symm
  intro phase
  apply set_perm_cons_eraseIdx hi

/-- The runners and the runners in the making, when a dispatch comes to another phase. -/
theorem runners_set {xs : List Dispatch} (h : xs[i]? = some x) :
  ∃ runners creating,
    (xs.filterMap fun x => x.phase.runner).Perm (x.phase.runner.toList ++ runners) ∧
      (xs.countP fun x => x.phase.isCreating) = x.phase.isCreating.toNat + creating ∧
    ∀ phase, ((xs.set i { x with phase := phase }).filterMap fun x => x.phase.runner).Perm
        (phase.runner.toList ++ runners) ∧
      ((xs.set i { x with phase := phase }).countP fun x => x.phase.isCreating) =
        phase.isCreating.toNat + creating
  := by
  obtain ⟨others, hpre, hafter⟩ := exists_others h
  have hruns : ∀ y : Dispatch, ((y :: others).filterMap fun x => x.phase.runner) =
      y.phase.runner.toList ++ others.filterMap fun x => x.phase.runner := by
    intro y
    cases hrunner : y.phase.runner with
    | none | some runner => simp [hrunner]
  have hcount : ∀ y : Dispatch, ((y :: others).countP fun x => x.phase.isCreating) =
      y.phase.isCreating.toNat + others.countP fun x => x.phase.isCreating := by
    intro y
    rw [countP_cons, add_comm]
    cases y.phase.isCreating with
    | true | false => rfl
  use others.filterMap fun x => x.phase.runner, others.countP fun x => x.phase.isCreating
  refine ⟨?_, ?_, fun phase => ⟨?_, ?_⟩⟩
  · rw [← hruns]
    apply hpre.filterMap
  · rw [← hcount]
    apply hpre.countP_eq
  · rw [← hruns { x with phase := phase }]
    apply (hafter phase).filterMap
  · rw [← hcount { x with phase := phase }]
    apply (hafter phase).countP_eq

variable {s t : State} {d : SubagentDispatcher}

/-- A dispatch that keeps its runner keeps the bound, and so does one that gives up its turn to
get one. -/
theorem Fitted.keep {phase : Phase} (hs : Fitted d s) (hx : s.dispatches[i]? = some x)
    (ht : t.dispatches = s.dispatches.set i { x with phase := phase })
    (hact : t.active = s.active) (hrunner : phase.runner = x.phase.runner)
    (hcreating : phase.isCreating = false) :
  Fitted d t
  := by
  obtain ⟨runners, creating, hpre, hcount, hafter⟩ := runners_set hx
  obtain ⟨hruns, hmade⟩ := hafter phase
  have hperm : t.runners.Perm s.runners := by
    rw [State.runners, ht, State.runners]
    rw [hrunner] at hruns
    apply hruns.trans hpre.symm
  constructor
  · rw [hact]
    apply hs.active.trans hperm.symm
  · rw [hact]
    apply hs.distinct
  have hroom := hs.room
  rw [State.creating, hcount] at hroom
  rw [hperm.length_eq, State.creating, ht, hmade, hcreating, Bool.toNat_false]
  omega

/-- A dispatch that gets its runner keeps the bound, if the runner is a new one. -/
theorem Fitted.join {phase : Phase} {runner : ℕ} (hs : Fitted d s) (hx : s.dispatches[i]? = some x)
    (ht : t.dispatches = s.dispatches.set i { x with phase := phase })
    (hact : t.active = s.active ++ [runner]) (hnew : runner ∉ s.active)
    (hwas : x.phase = .creating) (hrunner : phase.runner = some runner)
    (hcreating : phase.isCreating = false) :
  Fitted d t
  := by
  obtain ⟨runners, creating, hpre, hcount, hafter⟩ := runners_set hx
  obtain ⟨hruns, hmade⟩ := hafter phase
  rw [hwas] at hpre hcount
  have hsame : s.runners.Perm runners := hpre
  have hjoined : t.runners.Perm (runner :: runners) := by
    rw [State.runners, ht]
    rw [hrunner] at hruns
    apply hruns
  constructor
  · rw [hact]
    have hpush : (s.active ++ [runner]).Perm (runner :: s.active) := perm_append_singleton _ _
    apply hpush.trans
    apply Perm.trans _ hjoined.symm
    apply Perm.cons
    apply hs.active.trans hsame
  · rw [hact, nodup_append]
    use hs.distinct, nodup_singleton _
    rintro a ha b hb rfl
    rw [mem_singleton.mp hb] at ha
    apply hnew ha
  have hroom := hs.room
  rw [hsame.length_eq, State.creating, hcount] at hroom
  rw [hjoined.length_eq, length_cons, State.creating, ht, hmade, hcreating, Bool.toNat_false]
  change runners.length + (1 + creating) ≤ d.maxConcurrency at hroom
  omega

/-- A dispatch whose child is released keeps the bound. -/
theorem Fitted.leave {runner : ℕ}
    (hs : Fitted d s) (hx : s.dispatches[i]? = some x) (hrunner : x.phase.runner = some runner) :
  Fitted d (s.release i x runner)
  := by
  obtain ⟨runners, creating, hpre, hcount, hafter⟩ := runners_set hx
  obtain ⟨hruns, hmade⟩ := hafter .ended
  rw [hrunner] at hpre
  have hact : s.active.Perm (runner :: runners) := hs.active.trans hpre
  have hnodup : (runner :: runners).Nodup := hact.nodup_iff.mp hs.distinct
  have hleft : (s.release i x runner).runners.Perm runners := hruns
  have hkept : (s.active.filter (· ≠ runner)).Perm runners := by
    have hfilt := hact.filter (· ≠ runner)
    rw [filter_cons_of_neg (by simp)] at hfilt
    have hall : runners.filter (· ≠ runner) = runners := by
      apply filter_eq_self.mpr
      intro other hother
      rw [decide_eq_true_eq]
      rintro rfl
      apply (nodup_cons.mp hnodup).1 hother
    rw [hall] at hfilt
    apply hfilt
  constructor
  · apply hkept.trans hleft.symm
  · apply hs.distinct.filter
  have hroom := hs.room
  rw [State.runners, hpre.length_eq, State.creating, hcount, Option.toList_some,
    length_append, length_singleton] at hroom
  have hnone : (s.release i x runner).creating = creating := by
    change (s.dispatches.set i { x with phase := .ended }).countP _ = _
    rw [hmade]
    exact Nat.zero_add _
  rw [hleft.length_eq, hnone]
  omega

@[simp]
theorem active_emit (s : State) (x : Dispatch) (time : ℤ) (payload : EventPayload) :
  (s.emit x time payload).active = s.active
  := by
  rw [State.emit]
  split_ifs <;> rfl

@[simp]
theorem dispatches_emit (s : State) (x : Dispatch) (time : ℤ) (payload : EventPayload) :
  (s.emit x time payload).dispatches = s.dispatches
  := by
  rw [State.emit]
  split_ifs <;> rfl

theorem dispatches_announce (d : SubagentDispatcher) (s : State) (i : ℕ) (x : Dispatch)
    (runner : ℕ) (now later : ℤ) :
  (s.announce d i x runner now later).dispatches = s.dispatches.set i { x with
    phase := .announcing runner (beginEntry d x now)
      (EventPayload.dispatched (dispatchedPayload x (beginEntry d x now))).conforms }
  := by
  rw [State.announce, State.goOn, dispatches_emit]

/-- A settled run keeps its runner. -/
theorem Fitted.settle {runner : ℕ}
    (hs : Fitted d s) (hx : s.dispatches[i]? = some x) (hrunner : x.phase.runner = some runner)
    (entry : SubagentRunEntry) (caught : Bool) (status : SubagentRunStatus)
    (final : Option SessionState) (detail : Option String) (ctxOut : ℕ) (result : DispatchStatus)
    (now later : ℤ) :
  Fitted d (s.settle i x runner entry caught status final detail ctxOut result now later)
  := by
  rw [State.settle]
  exact hs.keep hx (by rw [State.goOn, dispatches_emit]; rfl)
    (by rw [State.goOn, active_emit]; rfl) (by rw [hrunner]; rfl) rfl

/-- What a dispatch that goes on does keeps the bound. -/
theorem Fitted.resume {a : Action}
    (hs : Fitted d s) (hx : s.dispatches[i]? = some x) (hok : Fitting d s a)
    (ht : s.resume d i x a = some t) :
  Fitted d t
  := by
  cases a with
  | created j runner now later =>
    rw [State.resume] at ht
    split at ht
    · rename_i hphase
      cases ht
      have hnew : runner ∉ s.active := hok
      have hcontains : s.active.contains runner = false := by
        rw [contains_eq_mem]
        exact decide_eq_false hnew
      have hact : (s.announce d i x runner now later).active = s.active ++ [runner] := by
        rw [State.announce, State.goOn, active_emit]
        exact if_neg (by rw [hcontains]; exact Bool.false_ne_true)
      exact hs.join hx (dispatches_announce d s i x runner now later) hact hnew hphase rfl
        rfl
    · cases ht
  | factoryThrows j | announced j =>
    rw [State.resume] at ht
    split at ht
    · rename_i hphase
      cases ht
      exact hs.keep hx rfl rfl (by rw [hphase]; rfl) rfl
    · cases ht
  | announceRejects j => exact hok.elim
  | ran j final aborted now later =>
    rw [State.resume] at ht
    split at ht
    · rename_i hphase
      cases ht
      have hrunner := congrArg Phase.runner hphase
      rw [State.finish]
      split_ifs <;> exact hs.settle hx hrunner _ _ _ _ _ _ _ _ _
    · cases ht
  | runThrows j cause now later =>
    rw [State.resume] at ht
    split at ht
    · rename_i hphase
      cases ht
      apply hs.settle hx (congrArg Phase.runner hphase)
    · cases ht
  | settled j =>
    rw [State.resume] at ht
    split at ht
    · rename_i hphase
      cases ht
      apply hs.leave hx (congrArg Phase.runner hphase)
    · cases ht
  | settleRejects j cause now later =>
    rw [State.resume] at ht
    split at ht
    · rename_i hphase
      cases ht
      apply hs.settle hx (congrArg Phase.runner hphase)
    · rename_i hphase
      cases ht
      apply hs.leave hx (congrArg Phase.runner hphase)
    · cases ht
  | dispatch | cancel | cancelAllRunning => cases ht

/-- A dispatch for which there is room keeps the bound. -/
theorem Fitted.dispatch {parent : DispatchParent}
    {input : DispatchInput} {aborted : Bool} (hs : Fitted d s)
    (hok : Fitting d s (.dispatch parent input aborted)) :
  Fitted d (s.dispatch d parent input aborted)
  := by
  rw [State.dispatch]
  cases hadmission : d.admission s.activeCount parent input with
  | error e => exact hs
  | ok budget =>
  cases aborted with
  | true => exact hs
  | false =>
  have hroom := hok (by rw [hadmission]; rfl) rfl
  rw [State.activeCount, hs.active.length_eq] at hroom
  dsimp only
  rw [if_neg Bool.false_ne_true]
  have hruns : ∀ x : Dispatch, x.phase = .creating →
      ((s.dispatches ++ [x]).filterMap fun x => x.phase.runner) = s.runners := by
    intro x hx
    rw [filterMap_append, filterMap_cons, hx]
    exact append_nil _
  have hcreating : ∀ x : Dispatch, x.phase = .creating →
      ((s.dispatches ++ [x]).countP fun x => x.phase.isCreating) = s.creating + 1 := by
    intro x hx
    rw [countP_append, countP_cons, hx]
    rfl
  constructor
  · rw [State.runners, hruns _ rfl]
    apply hs.active
  · apply hs.distinct
  · rw [State.runners, hruns _ rfl, State.creating, hcreating _ rfl]
    omega

/-- A cancellation keeps the bound. -/
theorem Fitted.cancel (hs : Fitted d s) (sessionId : String) :
  Fitted d (s.cancel sessionId)
  := by
  rw [State.cancel]
  split
  · apply hs
  · exact ⟨hs.active, hs.distinct, hs.room⟩

/-- A step that fits keeps the bound. -/
theorem Fitted.step {a : Action} (hs : Fitted d s)
    (hok : Fitting d s a) (ht : step d s a = some t) :
  Fitted d t
  := by
  have hresume : ∀ i, (s.dispatches[i]?.bind fun x => s.resume d i x a) = some t → Fitted d t := by
    intro i hi
    obtain ⟨x, hx, hresume⟩ := Option.bind_eq_some_iff.mp hi
    apply hs.resume hx hok hresume
  cases a with
  | dispatch parent input aborted =>
    cases ht
    apply hs.dispatch hok
  | cancel sessionId =>
    cases ht
    apply hs.cancel
  | cancelAllRunning =>
    cases ht
    apply List.foldlRecOn (motive := fun t => Fitted d t) _ _ hs
    intro t ht id _
    apply ht.cancel
  | created i | ran i | runThrows i | settleRejects i
  | factoryThrows i | announced i | announceRejects i | settled i => exact hresume i ht

/-- No child is over the bound where the active children are those of the dispatches. -/
theorem Fitted.bounded (hs : Fitted d s) :
  Bounded d s
  := by
  have hroom := hs.room
  constructor
  · rw [State.activeCount, hs.active.length_eq]
    omega
  · omega
  intro hover
  have hnone : s.runners = [] := by
    rw [State.runners, filterMap_eq_nil_iff]
    intro x hx
    have hphase := hover x hx
    cases h : x.phase with
    | ended | creating => rfl
    | announcing | running | settling =>
      rw [h] at hphase
      cases hphase
  rw [State.activeCount, hs.active.length_eq, hnone]
  rfl

/-- In every run whose steps fit, no more children are active than may be, and none counts as
active when all dispatches are over. -/
theorem bounded_of_fitting
    (d : SubagentDispatcher) (as : List Action) (s : State)
    (hok : Guarded (step d) (Fitting d) State.initial as)
    (hrun : run (step d) State.initial as = some s) :
  Bounded d s
  := by
  have hfitted : Fitted d s :=
    hok.invariant (fun _ _ _ hs hok ht => hs.step hok ht) (Fitted.initial d) hrun
  apply hfitted.bounded

/-- A dispatcher that lets one child run at a time. -/
def sampleDispatcher : SubagentDispatcher where
  maxDepth := 3
  maxConcurrency := 1
  defaultBudget := none
  agents := none
  runHistoryLimit := 100
  uuidv7 n := String.ofList (List.replicate (n + 1) 's')

/-- A session that dispatches. -/
def sampleParent : DispatchParent where
  state := createSession "parent" "/work" 1000 "tools" none none 0
  turnId := "turn"

def sampleInput : DispatchInput where
  prompt := "Look"
  agentType := none
  budget := none

/-- The state in which the child of a first dispatch ends. -/
def sampleFinal : SessionState :=
  createSession "s" "/work" 1000 "tools" none none 0

/-- One dispatch, from its call to its end. -/
def dispatchedOnce : List Action :=
  [.dispatch sampleParent sampleInput false, .created 0 0 0 0, .announced 0,
    .ran 0 sampleFinal false 1 1, .settled 0]

theorem bounded_of_fitting_dispatchedOnce :
  ∃ s, run (step sampleDispatcher) State.initial dispatchedOnce = some s ∧
    Bounded sampleDispatcher s
  := by
  have hsome : (run (step sampleDispatcher) State.initial dispatchedOnce).isSome := by
    decide +kernel
  have hok : Guarded (step sampleDispatcher) (Fitting sampleDispatcher) State.initial
      dispatchedOnce := by
    decide +kernel
  obtain ⟨s, hs⟩ := Option.isSome_iff_exists.mp hsome
  use s, hs
  apply bounded_of_fitting sampleDispatcher dispatchedOnce s hok hs

/-- Two dispatches are called before a runner has been made for either. -/
def dispatchedTwice : List Action :=
  [.dispatch sampleParent sampleInput false, .dispatch sampleParent sampleInput false,
    .created 0 0 0 0, .created 1 1 0 0]

/-- Two children are active where only one may be. -/
theorem not_bounded :
  ¬ ∀ d as s, run (step d) State.initial as = some s → Bounded d s
  := by
  intro h
  have hbounded := h sampleDispatcher dispatchedTwice _ rfl
  have hcount : 2 ≤ 1 := hbounded.count
  omega

end Subagent
