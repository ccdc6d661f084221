import VolundCode.AppRuntime.Scheduler
import VolundCode.Storage.SnapshotFile

/-!
# The store of tasks

The tasks, the journal of their runs and the cursors of the scheduler are one snapshot in one file.
Every operation takes the lock, loads the snapshot, and saves what it makes of it, or nothing if
there is no such task, or no such run. The journal keeps the latest runs only.

What an operation has brought about lasts (`lasts_replay`): the task it has stored is there until a
later operation stores or removes one of that id, and the run it has recorded is there until a later
one changes it or the journal has grown past it.
-/

namespace Storage.TaskStore

open Scheduler LockedStore SnapshotFile List

/-! ### Snapshots -/

inductive TaskRunStatus where
  | missed
  | skipped
  | running
  | completed
  | failed
  deriving DecidableEq, Repr

structure TaskRunError where
  code : String
  message : String
  deriving DecidableEq, Repr

structure TaskRunRecord where
  runId : String
  taskId : String
  status : TaskRunStatus
  scheduledFor : ℤ
  startedAt : Option ℤ
  finishedAt : Option ℤ
  sessionId : Option String
  exitCode : Option ℤ
  error : Option TaskRunError
  deriving DecidableEq, Repr

/-- The fields of a run to change. -/
structure TaskRunPatch where
  status : Option TaskRunStatus
  startedAt : Option ℤ
  finishedAt : Option ℤ
  sessionId : Option String
  exitCode : Option ℤ
  error : Option TaskRunError
  deriving DecidableEq, Repr

/-- A field that the patch does not have is kept. -/
def mergeRun (run : TaskRunRecord) (patch : TaskRunPatch) : TaskRunRecord :=
  { run with
    status := patch.status.getD run.status
    startedAt := patch.startedAt <|> run.startedAt
    finishedAt := patch.finishedAt <|> run.finishedAt
    sessionId := patch.sessionId <|> run.sessionId
    exitCode := patch.exitCode <|> run.exitCode
    error := patch.error <|> run.error }

structure TaskSnapshot where
  tasks : List TaskDefinition
  runs : List TaskRunRecord
  cursors : String → Option ℤ

/-- There are no tasks. -/
def TaskSnapshot.empty : TaskSnapshot where
  tasks := []
  runs := []
  cursors _ := none

/-! ### Operations -/

/-- What a store does with the snapshot, the definition of a task being one that the schema accepts.
Each store says how many runs the journal keeps. -/
inductive Operation where
  | upsertTask (task : TaskDefinition)
  | removeTask (id : String)
  | recordRun (retention : ℕ) (record : TaskRunRecord)
  | updateRun (runId : String) (patch : TaskRunPatch)
  | read

/-- `runs.slice(-retention)`. -/
def sliceLast (retention : ℕ) (runs : List TaskRunRecord) : List TaskRunRecord :=
  if retention = 0 then runs else runs.drop (runs.length - retention)

def upsertTask (task : TaskDefinition) (snapshot : TaskSnapshot) : TaskSnapshot :=
  { snapshot with
    tasks :=
      if snapshot.tasks.any fun existing => existing.id = task.id then
        snapshot.tasks.map fun existing => if existing.id = task.id then task else existing
      else snapshot.tasks ++ [task] }

def removeTask (id : String) (snapshot : TaskSnapshot) : Option TaskSnapshot :=
  if snapshot.tasks.any fun task => task.id = id then
    some
      { snapshot with
        tasks := snapshot.tasks.filter fun task => task.id ≠ id
        cursors := Function.update snapshot.cursors id none }
  else none

def recordRun (retention : ℕ) (record : TaskRunRecord) (snapshot : TaskSnapshot) : TaskSnapshot :=
  { snapshot with
    runs := sliceLast retention (snapshot.runs ++ [record])
    cursors := Function.update snapshot.cursors record.taskId
      (some (max ((snapshot.cursors record.taskId).getD 0) record.scheduledFor)) }

def updateRun (runId : String) (patch : TaskRunPatch) (snapshot : TaskSnapshot) :
    Option TaskSnapshot :=
  let runs := snapshot.runs.map fun run => if run.runId = runId then mergeRun run patch else run
  if runs.any fun run => run.runId = runId then some { snapshot with runs := runs } else none

/-- What an operation saves, if it saves at all. -/
def apply : Operation → TaskSnapshot → Option TaskSnapshot
  | .upsertTask task, snapshot => some (upsertTask task snapshot)
  | .removeTask id, snapshot => removeTask id snapshot
  | .recordRun retention record, snapshot => some (recordRun retention record snapshot)
  | .updateRun runId patch, snapshot => updateRun runId patch snapshot
  | .read, _ => none

/-- The file of tasks. A lock file that cannot be read is taken for that of a dead process. -/
def snapshots : Snapshots where
  Snapshot := TaskSnapshot
  empty := TaskSnapshot.empty
  Op := Operation
  apply op snapshot := some (apply op snapshot)
  grace := false

/-- The snapshot after an operation. -/
def after (op : Operation) (snapshot : TaskSnapshot) : TaskSnapshot :=
  (apply op snapshot).getD snapshot

theorem after_eq_after (op : Operation) (snapshot : TaskSnapshot) :
  snapshots.after op snapshot = after op snapshot
  := after_eq rfl

/-! ### What lasts -/

/-- An operation stores or removes a task of this id. -/
def Operation.ofTask (id : String) : Operation → Bool
  | .upsertTask task => task.id = id
  | .removeTask other => other = id
  | _ => false

/-- An operation records or changes a run of this id. -/
def Operation.ofRun (runId : String) : Operation → Bool
  | .recordRun _ record => record.runId = runId
  | .updateRun other _ => other = runId
  | _ => false

/-- Whether operations prune a run from the journal that has so many after it. -/
def prunes : ℕ → List Operation → Bool
  | _, [] => false
  | n, .recordRun retention _ :: later =>
    (0 < retention && retention ≤ n + 1) || prunes (n + 1) later
  | n, _ :: later => prunes n later

/-- What an operation has brought about is so in the snapshot, or one of the later operations has
brought about something else for the same task, or the same run, or pruned the run. -/
def Lasts (snapshot : TaskSnapshot) (later : List Operation) : Operation → Prop
  | .upsertTask task => task ∈ snapshot.tasks ∨ ∃ op ∈ later, op.ofTask task.id
  | .removeTask id =>
    (∀ task ∈ snapshot.tasks, task.id ≠ id) ∨ ∃ op ∈ later, op.ofTask id
  | .recordRun _ record =>
    record ∈ snapshot.runs ∨ (∃ op ∈ later, op.ofRun record.runId) ∨ prunes 0 later
  | .updateRun runId patch =>
    (∀ run ∈ snapshot.runs, run.runId = runId → mergeRun run patch = run) ∨
      ∃ op ∈ later, op.ofRun runId
  | .read => True

/-- A patch changes nothing the second time. -/
theorem mergeRun_mergeRun (run : TaskRunRecord) (patch : TaskRunPatch) :
  mergeRun (mergeRun run patch) patch = mergeRun run patch
  := by
  obtain ⟨status, startedAt, finishedAt, sessionId, exitCode, error⟩ := patch
  cases status <;> cases startedAt <;> cases finishedAt <;> cases sessionId <;> cases exitCode <;>
    cases error <;> rfl

variable {snapshot : TaskSnapshot}

/-- What each operation leaves so that does not end it is so after all, or one of them ends it. -/
theorem foldl_after (P : TaskSnapshot → Prop) (ends : Operation → Bool)
    (hstep : ∀ op snapshot, ends op = false → P snapshot → P (after op snapshot))
    (later : List Operation) (h : P snapshot) :
  P (later.foldl (fun snapshot op => after op snapshot) snapshot) ∨ ∃ op ∈ later, ends op
  := by
  induction later generalizing snapshot with
  | nil =>
    left
    apply h
  | cons op later ih =>
  cases hends : ends op with
  | true =>
    right
    use op, mem_cons_self
  | false =>
  rcases ih (hstep op snapshot hends h) with h | ⟨other, hmem, hother⟩
  · left
    apply h
  · right
    use other, mem_cons_of_mem _ hmem

theorem mem_sliceLast {retention : ℕ} {runs : List TaskRunRecord} {run : TaskRunRecord}
    (h : run ∈ sliceLast retention runs) :
  run ∈ runs
  := by
  rw [sliceLast] at h
  split_ifs at h
  · apply h
  · apply mem_of_mem_drop h

/-- The tasks after an operation are those before it, apart from the one of its id. -/
theorem mem_tasks_after {op : Operation} {task : TaskDefinition} (h : op.ofTask task.id = false) :
  task ∈ (after op snapshot).tasks ↔ task ∈ snapshot.tasks
  := by
  cases op with
  | upsertTask stored =>
    have hne : stored.id ≠ task.id := of_decide_eq_false h
    change task ∈ (if _ then _ else _ : List TaskDefinition) ↔ _
    split_ifs
    · rw [mem_map]
      constructor
      · rintro ⟨existing, hmem, heq⟩
        split_ifs at heq with hid
        · rw [heq] at hne
          contradiction
        · rw [← heq]
          apply hmem
      · intro hmem
        use task, hmem
        rw [if_neg hne.symm]
    rw [mem_append, mem_singleton]
    constructor
    · rintro (hmem | rfl)
      · apply hmem
      · contradiction
    · intro hmem
      left
      apply hmem
  | removeTask id =>
    have hne : id ≠ task.id := of_decide_eq_false h
    change task ∈ ((removeTask id snapshot).getD snapshot).tasks ↔ _
    rw [removeTask]
    split_ifs
    · change task ∈ List.filter _ _ ↔ _
      rw [mem_filter]
      constructor
      · intro hmem
        apply hmem.1
      · intro hmem
        use hmem, decide_eq_true hne.symm
    · rfl
  | recordRun retention record => rfl
  | updateRun runId patch =>
    change task ∈ ((updateRun runId patch snapshot).getD snapshot).tasks ↔ _
    rw [updateRun]
    split_ifs
    · rfl
    · rfl
  | read => rfl

theorem mem_upsertTask (task : TaskDefinition) (snapshot : TaskSnapshot) :
  task ∈ (upsertTask task snapshot).tasks
  := by
  change task ∈ (if _ then _ else _ : List TaskDefinition)
  split_ifs with hany
  · obtain ⟨existing, hmem, hid⟩ := any_eq_true.mp hany
    apply mem_map.mpr
    use existing, hmem
    rw [if_pos (of_decide_eq_true hid)]
  · apply mem_append_right _ mem_cons_self

theorem not_mem_removeTask {id : String} {task : TaskDefinition}
    (h : task ∈ (after (.removeTask id) snapshot).tasks) :
  task.id ≠ id
  := by
  change task ∈ ((removeTask id snapshot).getD snapshot).tasks at h
  rw [removeTask] at h
  split_ifs at h with hany
  · apply of_decide_eq_true (mem_filter.mp h).2
  intro hid
  apply hany
  apply any_eq_true.mpr
  use task, h, decide_eq_true hid

/-- The runs after an operation are those before it, apart from those of its id. -/
theorem mem_runs_of_after {op : Operation} {run : TaskRunRecord}
    (hop : op.ofRun run.runId = false) (h : run ∈ (after op snapshot).runs) :
  run ∈ snapshot.runs
  := by
  cases op with
  | upsertTask task => apply h
  | removeTask id =>
    change run ∈ ((removeTask id snapshot).getD snapshot).runs at h
    rw [removeTask] at h
    split_ifs at h
    · apply h
    · apply h
  | recordRun retention record =>
    have hne : record.runId ≠ run.runId := of_decide_eq_false hop
    rcases mem_append.mp (mem_sliceLast h) with h | h
    · apply h
    · rw [mem_singleton.mp h] at hne
      contradiction
  | updateRun runId patch =>
    have hne : runId ≠ run.runId := of_decide_eq_false hop
    change run ∈ ((updateRun runId patch snapshot).getD snapshot).runs at h
    rw [updateRun] at h
    split_ifs at h
    · obtain ⟨old, hmem, heq⟩ := mem_map.mp h
      split_ifs at heq with hid
      · apply absurd _ hne
        rw [← heq, ← hid]
        rfl
      · rw [← heq]
        apply hmem
    · apply h
  | read => apply h

/-- A run that has been patched is so after it. -/
theorem mergeRun_of_mem_updateRun {runId : String} {patch : TaskRunPatch}
    {run : TaskRunRecord} (h : run ∈ (after (.updateRun runId patch) snapshot).runs)
    (hid : run.runId = runId) :
  mergeRun run patch = run
  := by
  change run ∈ ((updateRun runId patch snapshot).getD snapshot).runs at h
  rw [updateRun] at h
  split_ifs at h with hany
  · obtain ⟨old, -, heq⟩ := mem_map.mp h
    split_ifs at heq with hold
    · rw [← heq, mergeRun_mergeRun]
    · rw [heq] at hold
      contradiction
  apply absurd _ hany
  apply any_eq_true.mpr
  use mergeRun run patch
  constructor
  · apply mem_map.mpr
    use run, h
    rw [if_pos hid]
  · apply decide_eq_true hid

/-- A run stays in the journal with so many after it, until an operation changes it or prunes it. -/
theorem mem_runs_foldl {record : TaskRunRecord} (later : List Operation) {snapshot : TaskSnapshot}
    {past rest : List TaskRunRecord} (h : snapshot.runs = past ++ record :: rest) :
  record ∈ (later.foldl (fun snapshot op => after op snapshot) snapshot).runs ∨
    (∃ op ∈ later, op.ofRun record.runId) ∨ prunes rest.length later
  := by
  induction later generalizing snapshot past rest with
  | nil =>
    left
    change record ∈ snapshot.runs
    rw [h]
    apply mem_append_right _ mem_cons_self
  | cons op later ih =>
  cases hop : op.ofRun record.runId with
  | true =>
    right
    left
    use op, mem_cons_self
  | false =>
  -- where the run is afterwards, if it is there
  have hlater {past' rest' : List TaskRunRecord}
      (hruns : (after op snapshot).runs = past' ++ record :: rest')
      (hprunes : prunes rest'.length later → prunes rest.length (op :: later)) :
      record ∈ (later.foldl (fun snapshot op => after op snapshot)
          (after op snapshot)).runs ∨
        (∃ other ∈ op :: later, other.ofRun record.runId) ∨
        prunes rest.length (op :: later) := by
    rcases ih hruns with hmem | ⟨other, hmem, hother⟩ | hpruned
    · left
      apply hmem
    · right
      left
      use other, mem_cons_of_mem _ hmem
    · right
      right
      apply hprunes hpruned
  cases op with
  | upsertTask task =>
    apply hlater h
    intro hpruned
    apply hpruned
  | removeTask id =>
    have hruns : (after (.removeTask id) snapshot).runs = past ++ record :: rest := by
      change ((removeTask id snapshot).getD snapshot).runs = _
      rw [removeTask]
      split_ifs
      all_goals apply h
    apply hlater hruns
    intro hpruned
    apply hpruned
  | recordRun retention other =>
    by_cases hpruned : 0 < retention ∧ retention ≤ rest.length + 1
    · right
      right
      rw [prunes, decide_eq_true hpruned.1, decide_eq_true hpruned.2]
      rfl
    have hruns : ∃ past', (after (.recordRun retention other) snapshot).runs =
        past' ++ record :: (rest ++ [other]) := by
      change ∃ past', sliceLast retention (snapshot.runs ++ [other]) = _
      rw [h, sliceLast]
      split_ifs with hzero
      · use past
        rw [append_assoc, cons_append]
      use past.drop ((past ++ record :: rest ++ [other]).length - retention)
      rw [append_assoc, cons_append, drop_append_of_le_length]
      simp only [length_append, length_cons, length_nil]
      omega
    obtain ⟨past', hruns⟩ := hruns
    apply hlater hruns
    intro hlate
    rw [length_append, length_singleton] at hlate
    rw [prunes, hlate, Bool.or_true]
  | updateRun runId patch =>
    have hne : runId ≠ record.runId := of_decide_eq_false hop
    have hruns : ∃ past' rest', (after (.updateRun runId patch) snapshot).runs =
        past' ++ record :: rest' ∧ rest'.length = rest.length := by
      change ∃ past' rest', ((updateRun runId patch snapshot).getD snapshot).runs = _ ∧ _
      rw [updateRun]
      split_ifs
      · use past.map fun run => if run.runId = runId then mergeRun run patch else run,
          rest.map fun run => if run.runId = runId then mergeRun run patch else run
        constructor
        · change List.map _ snapshot.runs = _
          rw [h, map_append, map_cons, if_neg hne.symm]
        · rw [length_map]
      · use past, rest, h
    obtain ⟨past', rest', hruns, hlen⟩ := hruns
    apply hlater hruns
    intro hpruned
    rw [hlen] at hpruned
    apply hpruned
  | read =>
    apply hlater h
    intro hpruned
    apply hpruned

theorem sliceLast_append_singleton (retention : ℕ) (runs : List TaskRunRecord)
    (record : TaskRunRecord) :
  ∃ past, sliceLast retention (runs ++ [record]) = past ++ [record]
  := by
  rw [sliceLast]
  split_ifs with hzero
  · use runs
  use runs.drop ((runs ++ [record]).length - retention)
  rw [drop_append_of_le_length]
  rw [length_append, length_singleton]
  omega

/-- What an operation has brought about lasts. -/
theorem lasts_foldl (op : Operation) (later : List Operation) (snapshot : TaskSnapshot) :
  Lasts (later.foldl (fun snapshot op => after op snapshot) (after op snapshot)) later op
  := by
  cases op with
  | upsertTask task =>
    apply foldl_after (fun snapshot => task ∈ snapshot.tasks) (Operation.ofTask task.id)
    · intro op snapshot hop hmem
      apply (mem_tasks_after hop).mpr hmem
    · apply mem_upsertTask
  | removeTask id =>
    apply foldl_after (fun snapshot => ∀ task ∈ snapshot.tasks, task.id ≠ id)
      (Operation.ofTask id)
    · intro op snapshot hop hnone task hmem hid
      apply hnone task _ hid
      apply (mem_tasks_after _).mp hmem
      rw [hid]
      apply hop
    · intro task hmem
      apply not_mem_removeTask hmem
  | recordRun retention record =>
    obtain ⟨past, hpast⟩ := sliceLast_append_singleton retention snapshot.runs record
    apply @mem_runs_foldl record later (after (.recordRun retention record) snapshot) past []
      hpast
  | updateRun runId patch =>
    apply foldl_after
      (fun snapshot => ∀ run ∈ snapshot.runs, run.runId = runId → mergeRun run patch = run)
      (Operation.ofRun runId)
    · intro op snapshot hop hmerged run hmem hid
      apply hmerged run _ hid
      apply mem_runs_of_after _ hmem
      rw [hid]
      apply hop
    · intro run hmem hid
      apply mergeRun_of_mem_updateRun hmem hid
  | read => exact True.intro

/-! ### Calls -/

variable (W : World snapshots.store)

/-- The operation of a call. -/
def operationOf (call : ℕ) : Operation :=
  W.op call

/-- The snapshot that a call loads. -/
def loadUnlocked (files : Files TaskSnapshot) : TaskSnapshot :=
  files.loadUnlocked TaskSnapshot.empty

/-- What the operation of a call has brought about lasts in the file, `later` being calls that have
loaded after it. -/
def Reflected (s : State snapshots.store) (call : ℕ) : Prop :=
  ∃ before later : List ℕ, (before ++ call :: later).Sublist (callsOf s) ∧
    Lasts (loadUnlocked s.content) (later.map (operationOf W)) (operationOf W call)

variable {W} {content₀ : Files TaskSnapshot} {s : State snapshots.store}

/-- The operations of calls make of a snapshot what one after the other makes of it. -/
theorem foldl_operationOf (calls : List ℕ) (snapshot : TaskSnapshot) :
  (calls.map (operationOf W)).foldl (fun snapshot op => after op snapshot) snapshot =
    calls.foldl (fun snapshot call => snapshots.after (W.op call) snapshot) snapshot
  := by
  rw [foldl_map]
  apply congrFun
  apply congrFun
  apply congrArg
  funext snapshot call
  apply (after_eq_after _ _).symm

/-- Where the calls have made the file of the first one after the other, what a call has brought
about lasts that has returned. -/
theorem reflected_of_replayed (h : Replayed W content₀ s)
    (hquiet : ∀ c, (s.phase c).saves = false) {call : ℕ} (hcall : call ∈ s.returned) :
  Reflected W s call
  := by
  obtain ⟨effective, hsub, hret, hload⟩ := h
  obtain ⟨before, later, rfl⟩ := append_of_mem (hret call hcall)
  use before, later, hsub
  have hfile : loadUnlocked s.content =
      (later.map (operationOf W)).foldl (fun snapshot op => after op snapshot)
        (after (operationOf W call) ((before.map (operationOf W)).foldl
          (fun snapshot op => after op snapshot) (loadUnlocked content₀))) := by
    rw [← foldl_cons, ← map_cons, ← foldl_append, ← map_append, foldl_operationOf]
    apply hload hquiet
  rw [hfile]
  apply lasts_foldl

/-! ### What every file of tasks has -/

/-- The tasks have ids of their own, and the journal has no more runs than this. -/
structure Sound (retention : ℕ) (snapshot : TaskSnapshot) : Prop where
  tasks : (snapshot.tasks.map TaskDefinition.id).Nodup
  runs : snapshot.runs.length ≤ retention

/-- The store of the operation prunes the journal to no more runs than this. -/
def Operation.prunesTo (retention : ℕ) : Operation → Prop
  | .recordRun n _ => 0 < n ∧ n ≤ retention
  | _ => True

theorem Sound.after {retention : ℕ} {snapshot : TaskSnapshot} (h : Sound retention snapshot)
    {op : Operation} (hop : op.prunesTo retention) :
  Sound retention (after op snapshot)
  := by
  cases op with
  | upsertTask task =>
    refine ⟨?_, h.runs⟩
    change (map _ (if _ then _ else _)).Nodup
    split_ifs with hany
    · rw [map_map]
      convert h.tasks using 1
      apply map_congr_left
      intro existing _
      rw [Function.comp_apply]
      split_ifs with hid
      · exact hid.symm
      · rfl
    rw [map_append, nodup_append]
    use h.tasks, nodup_singleton _
    rintro id hid _ hmem rfl
    obtain ⟨existing, hexists, heq⟩ := mem_map.mp hid
    apply hany
    rw [any_eq_true]
    use existing, hexists
    simpa [heq] using hmem
  | removeTask id =>
    change Sound retention ((removeTask id snapshot).getD snapshot)
    rw [removeTask]
    split_ifs
    · exact ⟨h.tasks.sublist (filter_sublist.map _), h.runs⟩
    · exact h
  | recordRun n record =>
    refine ⟨h.tasks, ?_⟩
    change (sliceLast n (snapshot.runs ++ [record])).length ≤ retention
    rw [sliceLast, if_neg hop.1.ne', length_drop]
    have hle := hop.2
    omega
  | updateRun runId patch =>
    change Sound retention ((updateRun runId patch snapshot).getD snapshot)
    simp only [updateRun]
    split_ifs
    · refine ⟨h.tasks, ?_⟩
      change (map _ snapshot.runs).length ≤ retention
      rw [length_map]
      apply h.runs
    · exact h
  | read => exact h

/-- Every call records that a run was missed, and keeps one run. -/
def missedRuns : World snapshots.store where
  procOf call := call
  pidOf process := process + 1
  op call := Operation.recordRun 1 ⟨"run", "task", .missed, call, none, none, none, none, none⟩

def missedOnce : List Action :=
  [.spawn 0, .begin 0] ++ List.replicate 13 (.next 0 false)

end Storage.TaskStore
