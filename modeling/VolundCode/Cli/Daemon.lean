import VolundCode.AppRuntime.Scheduler

/-!
# The task daemon

The daemon ticks on a timer. A tick loads the snapshot of the task store, evaluates it and
then works through the outcome, one row of the journal after another: windows missed or
skipped are recorded, and of the fires of a task the latest is launched and the others are
recorded as missed. Each row moves the cursor of its task, and the row of a run is written
before the run is spawned. The timer does not wait for a tick to end, so several ticks can
be in progress, and the process can end at any point.
-/

namespace Daemon

open Scheduler

/-! ### The task store -/

inductive TaskRunStatus where
  | missed
  | skipped
  | running
  | completed
  | failed
  deriving DecidableEq, Repr

structure TaskRunRecord where
  runId : ℕ
  taskId : String
  status : TaskRunStatus
  scheduledFor : ℤ
  deriving DecidableEq, Repr

structure TaskSnapshot where
  tasks : List TaskDefinition
  runs : List TaskRunRecord
  cursors : String → Option ℤ

/-- `runs.slice(-retention)`. -/
def sliceLast (retention : ℕ) (runs : List TaskRunRecord) : List TaskRunRecord :=
  if retention = 0 then runs else runs.drop (runs.length - retention)

/-- A row is appended, the oldest ones are pruned, and the cursor of the task moves on. -/
def TaskSnapshot.recordRun (retention : ℕ) (record : TaskRunRecord) (snapshot : TaskSnapshot) :
    TaskSnapshot where
  tasks := snapshot.tasks
  runs := sliceLast retention (snapshot.runs ++ [record])
  cursors := Function.update snapshot.cursors record.taskId
    (some (max ((snapshot.cursors record.taskId).getD 0) record.scheduledFor))

def TaskSnapshot.updateRun (runId : ℕ) (status : TaskRunStatus) (snapshot : TaskSnapshot) :
    TaskSnapshot :=
  { snapshot with
    runs := snapshot.runs.map fun run => if run.runId = runId then { run with status } else run }

/-! ### Ticks in progress -/

/-- What is left to do in a tick, up to the next `await`. -/
inductive Work where
  | record (task : TaskDefinition) (status : TaskRunStatus) (scheduledFor : ℤ)
  | group (fires : List TaskFire)
  | launch (task : TaskDefinition) (scheduledFor : ℤ)
  | spawn (task : TaskDefinition) (scheduledFor : ℤ) (runId : ℕ)
  deriving DecidableEq, Repr

/-- A fire joins the group of its task, or makes one. -/
def groupFire (fire : TaskFire) :
    List (String × List TaskFire) → List (String × List TaskFire)
  | [] => [(fire.task.id, [fire])]
  | (id, group) :: groups =>
    if id = fire.task.id then (id, group ++ [fire]) :: groups
    else (id, group) :: groupFire fire groups

/-- The fires by task, in the order in which the tasks come. -/
def firesByTask (fires : List TaskFire) : List (String × List TaskFire) :=
  fires.foldl (fun groups fire => groupFire fire groups) []

/-- What a tick does with an outcome: a missed window that fires has its row from the fire, and
a fire that is queued waits for a later tick. -/
def works (outcome : TaskTickResult) : List Work :=
  (outcome.missed.filter (¬ ·.fires)).map (fun entry =>
      .record entry.task .missed entry.scheduledFor) ++
    outcome.skipped.map (fun skip => .record skip.task .skipped skip.scheduledFor) ++
    (firesByTask (outcome.fires.filter (¬ ·.queued))).map fun group => .group group.2

/-- What a tick does with the fires of a task for which there is room. -/
def groupWorks (group : List TaskFire) : List Work :=
  match group.getLast? with
  | none => []
  | some latest =>
    group.dropLast.map (fun stale => .record stale.task .missed stale.scheduledFor) ++
      [.launch latest.task latest.scheduledFor]

/-! ### The daemon -/

/-- A process of the daemon: the runs in flight by task, the ticks begun with what is left of
each, and the runs that have been spawned and have not ended. -/
structure Process where
  bootAt : ℤ
  maxConcurrent : ℕ
  inFlight : List (String × ℕ)
  ticks : List (List Work)
  children : List (String × ℕ)
  deriving DecidableEq, Repr

/-- A row of the journal when it was written, with the start of the daemon that wrote it. -/
structure Booking where
  taskId : String
  status : TaskRunStatus
  scheduledFor : ℤ
  bootAt : ℤ
  deriving DecidableEq, Repr

/-- The store and the process, if one is up, with all that has been recorded and spawned. -/
structure State where
  store : TaskSnapshot
  process : Option Process
  nextRunId : ℕ
  history : List Booking
  launched : List (String × ℤ)

/-- How an `await` of a tick ends: as it should, with a launch refused, or with an exception. -/
inductive Answer where
  | done
  | refused
  | throws
  deriving DecidableEq, Repr

inductive Action where
  | boot (now : ℤ)
  | halt
  | load (now : ℤ) (maxConcurrent : ℕ)
  | work (tick : ℕ) (answer : Answer)
  | finish (run : ℕ) (completed : Bool)
  deriving DecidableEq, Repr

/-- Runs that a daemon before this one has left in flight have failed. -/
def TaskSnapshot.recover (snapshot : TaskSnapshot) : TaskSnapshot :=
  { snapshot with
    runs := snapshot.runs.map fun run =>
      if run.status = .running then { run with status := .failed } else run }

/-- A row for a window is written. -/
def State.book (retention : ℕ) (s : State) (bootAt : ℤ) (taskId : String)
    (status : TaskRunStatus) (scheduledFor : ℤ) : State :=
  { s with
    store := s.store.recordRun retention ⟨s.nextRunId, taskId, status, scheduledFor⟩
    nextRunId := s.nextRunId + 1
    history := s.history ++ [⟨taskId, status, scheduledFor, bootAt⟩] }

/-- The state with what is left of a tick. -/
def State.left (s : State) (p : Process) (tick : ℕ) (rest : List Work) : State :=
  { s with process := some { p with ticks := p.ticks.set tick rest } }

/-- The next step of a tick. -/
def perform (retention : ℕ) (s : State) (p : Process) (tick : ℕ) (rest : List Work) :
    Work → Answer → State
  | .record _ _ _, .throws => s.left p tick []
  | .record task status scheduledFor, _ =>
    (s.book retention p.bootAt task.id status scheduledFor).left p tick rest
  | .group fires, _ =>
    if p.maxConcurrent ≤ p.inFlight.length then s.left p tick rest
    else s.left p tick (groupWorks fires ++ rest)
  | .launch _ _, .throws => s.left p tick []
  | .launch task scheduledFor, .refused =>
    (s.book retention p.bootAt task.id .failed scheduledFor).left p tick rest
  | .launch task scheduledFor, .done =>
    (s.book retention p.bootAt task.id .running scheduledFor).left p tick
      (.spawn task scheduledFor s.nextRunId :: rest)
  | .spawn task scheduledFor runId, _ =>
    { s with
      process := some { p with
        inFlight := p.inFlight.filter (·.1 ≠ task.id) ++ [(task.id, runId)]
        children := p.children ++ [(task.id, runId)]
        ticks := p.ticks.set tick rest }
      launched := s.launched ++ [(task.id, scheduledFor)] }

/-- A step of the daemon. An action that cannot happen changes nothing. -/
def step (intl : Intl) (retention : ℕ) (s : State) : Action → State
  | .boot now =>
    match s.process with
    | some _ => s
    | none => { s with store := s.store.recover, process := some ⟨now, 0, [], [], []⟩ }
  | .halt => { s with process := none }
  | .load now maxConcurrent =>
    match s.process with
    | none => s
    | some p =>
      let outcome := evaluateTick intl
        { now := now
          bootAt := p.bootAt
          tasks := s.store.tasks
          cursors := s.store.cursors
          runningTaskIds := p.inFlight.map (·.1) }
      { s with process := some { p with maxConcurrent, ticks := p.ticks ++ [works outcome] } }
  | .work tick answer =>
    match s.process with
    | none => s
    | some p =>
      match p.ticks[tick]? with
      | some (next :: rest) => perform retention s p tick rest next answer
      | _ => s
  | .finish run completed =>
    match s.process with
    | none => s
    | some p =>
      match p.children[run]? with
      | none => s
      | some (taskId, runId) =>
        { s with
          store := s.store.updateRun runId (if completed then .completed else .failed)
          process := some { p with
            inFlight := p.inFlight.filter (·.1 ≠ taskId)
            children := p.children.eraseIdx run } }

/-- The tasks of a store, no two of which have the same id. -/
structure TaskSet where
  tasks : List TaskDefinition
  distinct : (tasks.map (·.id)).Nodup

/-- A store in which nothing has been recorded, and no daemon. -/
def initial (set : TaskSet) : State where
  store := ⟨set.tasks, [], fun _ => none⟩
  process := none
  nextRunId := 0
  history := []
  launched := []

/-- The states an infinite run passes through. -/
def states (intl : Intl) (retention : ℕ) (set : TaskSet) (actions : ℕ → Action) : ℕ → State
  | 0 => initial set
  | n + 1 => step intl retention (states intl retention set actions n) (actions n)

end Daemon
