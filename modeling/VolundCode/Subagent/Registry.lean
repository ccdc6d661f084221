import VolundCode.Core.Events
import VolundCode.Lib.Ecma

/-!
# The registry of subagent runs

A dispatch of a subagent is told in the journal of the parent session, by a `subagent.dispatched`
event when it begins and a `subagent.settled` event when it is over, and it has an entry in the
registry of runs. The registry can be rebuilt from the journal.
-/

namespace Subagent

open Core ProviderKit

/-! ### Events -/

/-- The budget that an event reports. -/
structure EventBudget where
  tokenMax : Option ℚ
  costUSDMax : Option ℚ
  timeMsMax : Option ℚ
  deriving DecidableEq

structure DispatchedPayload where
  sessionId : String
  parentSessionId : String
  parentTurnId : String
  agentType : Option String
  depth : ℕ
  isolationTier : ℕ
  fork : Bool
  budget : EventBudget
  promptDigest : String
  ctxIn : ℕ
  deriving DecidableEq

inductive SettledStatus where
  | completed
  | failed
  | cancelled
  deriving DecidableEq, Repr

structure SettledPayload where
  sessionId : String
  status : SettledStatus
  usage : Usage
  ctxOut : ℕ
  toolCalls : ℕ
  durationMs : ℕ
  detail : Option String
  deriving DecidableEq

inductive EventPayload where
  | dispatched (payload : DispatchedPayload)
  | settled (payload : SettledPayload)
  deriving DecidableEq

/-- An event in the journal of a session, with the time at which it was emitted. -/
structure SubagentJournalEvent where
  sessionId : String
  turnId : String
  time : ℤ
  payload : EventPayload
  deriving DecidableEq

/-- The schema of a positive integer. -/
def isPositiveCount (x : ℚ) : Bool :=
  isCount x && decide (0 < x)

def eventBudgetConforms (b : EventBudget) : Bool :=
  b.tokenMax.all isPositiveCount && b.costUSDMax.all (fun cost => decide (0 < cost)) &&
    b.timeMsMax.all isPositiveCount

/-- `subagentDispatchedPayloadSchema`. -/
def dispatchedConforms (p : DispatchedPayload) : Bool :=
  p.sessionId ≠ "" && p.parentSessionId ≠ "" && p.parentTurnId ≠ "" &&
    p.agentType.all (fun name => decide (name ≠ "")) && decide (0 < p.depth) &&
    decide (p.isolationTier ≤ 2) && eventBudgetConforms p.budget && p.promptDigest ≠ ""

/-- `subagentSettledPayloadSchema`. -/
def settledConforms (p : SettledPayload) : Bool :=
  p.sessionId ≠ "" && usageConforms p.usage

/-- The contract that the bus checks of an event. -/
def EventPayload.conforms : EventPayload → Bool
  | .dispatched p => dispatchedConforms p
  | .settled p => settledConforms p

/-- The run that an event is about. -/
def EventPayload.runId : EventPayload → String
  | .dispatched p => p.sessionId
  | .settled p => p.sessionId

/-! ### Entries -/

inductive SubagentRunStatus where
  | running
  | completed
  | partially
  | failed
  | cancelled
  | interrupted
  deriving DecidableEq, Repr

/-- What a run has used, as its entry shows it. -/
structure RunUsage where
  input : ℚ
  output : ℚ
  costUSD : ℚ
  deriving DecidableEq

structure SubagentRunEntry where
  sessionId : String
  parentSessionId : String
  agentType : Option String
  depth : ℕ
  status : SubagentRunStatus
  startedAt : ℤ
  endedAt : Option ℤ
  promptPreview : String
  prompt : String
  budget : Option Budget
  usage : Option RunUsage
  toolCalls : Option ℕ
  detail : Option String

/-- The newest entries, up to the limit. -/
def keepNewest (limit : ℕ) (runs : List SubagentRunEntry) : List SubagentRunEntry :=
  runs.drop (runs.length - limit)

/-- The entries by the time at which they started. -/
def sortByStart (runs : List SubagentRunEntry) : List SubagentRunEntry :=
  runs.insertionSort fun a b => a.startedAt ≤ b.startedAt

/-! ### Rebuilding -/

/-- The settled status as the status of an entry. -/
def SettledStatus.runStatus : SettledStatus → SubagentRunStatus
  | .completed => .completed
  | .failed => .failed
  | .cancelled => .cancelled

/-- A number of the budget that is greater than zero. -/
def positive (x : Option ℚ) : Option ℚ :=
  x.filter fun value => 0 < value

/-- The budget of an event as a budget of a run. -/
def EventBudget.budget (b : EventBudget) : Budget where
  tokenMax := b.tokenMax
  costUSDMax := b.costUSDMax
  timeMsMax := b.timeMsMax
  toolCallMax := none

/-- The budget that is reported for a budget of a run. -/
def eventBudgetOf (b : Budget) : EventBudget where
  tokenMax := (positive b.tokenMax).map fun value => (⌊value⌋ : ℚ)
  costUSDMax := positive b.costUSDMax
  timeMsMax := (positive b.timeMsMax).map fun value => (⌊value⌋ : ℚ)

/-- The entry of a run that was dispatched. -/
def entryOfDispatched (time : ℤ) (p : DispatchedPayload) : SubagentRunEntry where
  sessionId := p.sessionId
  parentSessionId := p.parentSessionId
  agentType := p.agentType
  depth := p.depth
  status := .running
  startedAt := time
  endedAt := none
  promptPreview := p.promptDigest
  prompt := p.promptDigest
  budget := some (eventBudgetOf p.budget.budget).budget
  usage := none
  toolCalls := none
  detail := none

/-- The entry of a run that has been settled. -/
def settleEntry (time : ℤ) (p : SettledPayload) (entry : SubagentRunEntry) : SubagentRunEntry :=
  { entry with
    status := p.status.runStatus
    endedAt := some time
    usage := some ⟨p.usage.input, p.usage.output, p.usage.costUSD.getD 0⟩
    toolCalls := some p.toolCalls
    detail := match p.detail with
      | some detail => if detail = "" then entry.detail else some detail
      | none => entry.detail }

/-- The entries replayed so far, after one more event of the journal. -/
def replayEvent (known : List String) (replayed : List SubagentRunEntry)
    (event : SubagentJournalEvent) : List SubagentRunEntry :=
  match event.payload with
  | .dispatched p =>
    if !dispatchedConforms p then replayed
    else if known.contains p.sessionId ∨ p.sessionId ∈ replayed.map (·.sessionId) then replayed
    else replayed ++ [entryOfDispatched event.time p]
  | .settled p =>
    if !settledConforms p then replayed
    else replayed.map fun entry =>
      if entry.sessionId = p.sessionId then settleEntry event.time p entry else entry

/-- A run without a settled event was interrupted. -/
def interrupt (entry : SubagentRunEntry) : SubagentRunEntry :=
  if entry.status = .running then { entry with status := .interrupted } else entry

/-- The registry with the runs of a journal that it does not know, and how many these are. -/
def rebuildFromJournal (runHistoryLimit : ℕ) (runs : List SubagentRunEntry)
    (events : List SubagentJournalEvent) : List SubagentRunEntry × ℕ :=
  let replayed := events.foldl (replayEvent (runs.map (·.sessionId))) []
  if replayed = [] then (runs, 0)
  else (keepNewest runHistoryLimit (sortByStart (runs ++ replayed.map interrupt)), replayed.length)

end Subagent
