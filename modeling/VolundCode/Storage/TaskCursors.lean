import VolundCode.Storage.TaskStore

/-!
# The cursors of tasks

The cursor of a task is the latest time for which a run of it was recorded. It stands besides the
journal, which is pruned, and goes with the task when that is removed. In every sequence of
operations in which runs are recorded only for tasks that are there, a cursor is the greatest time
recorded since the task was last removed, it does not decrease while the task is there, and no
cursor is left of a task that is not (`right_run`). The store records runs of tasks that have been
removed too, and a task created anew then starts from the cursor of the old one (`not_right`).
-/

namespace Storage.TaskStore

open Scheduler Run List

/-! ### Sequences of operations -/

/-- An operation after those before it. -/
def step (s : TaskSnapshot) (op : Operation) : Option TaskSnapshot :=
  some (after op s)

/-- There is a task of this id. -/
def TaskSnapshot.has (s : TaskSnapshot) (id : String) : Bool :=
  s.tasks.any fun task => task.id = id

/-- The times recorded for a task since it was last removed, after one more operation. -/
def noteTime (id : String) (times : List ℤ) : Operation → List ℤ
  | .removeTask other => if other = id then [] else times
  | .recordRun _ record => if record.taskId = id then times ++ [record.scheduledFor] else times
  | _ => times

/-- The times for which runs of a task were recorded since it was last removed. -/
def timesOf (id : String) (past : List Operation) : List ℤ :=
  past.foldl (noteTime id) []

theorem timesOf_append_singleton (id : String) (past : List Operation) (op : Operation) :
  timesOf id (past ++ [op]) = noteTime id (timesOf id past) op
  := foldl_append

/-! ### What is right -/

/-- The greatest of times, if there are any. -/
def Greatest (times : List ℤ) : Option ℤ → Prop
  | none => times = []
  | some m => m ∈ times ∧ ∀ t ∈ times, t ≤ m

/-- The properties every object has. What is stored under such a name is not a property of its
own. -/
def inheritedNames : List String :=
  ["constructor", "__defineGetter__", "__defineSetter__", "hasOwnProperty", "__lookupGetter__",
    "__lookupSetter__", "isPrototypeOf", "propertyIsEnumerable", "toString", "valueOf",
    "__proto__", "toLocaleString"]

/-- Runs are recorded for tasks that are there, for times since the epoch, and not for a task named
like a property every object has. -/
def Booked (s : TaskSnapshot) : Operation → Prop
  | .recordRun _ record => s.has record.taskId ∧ 0 ≤ record.scheduledFor ∧
    record.taskId ∉ inheritedNames
  | _ => True

instance Booked.decidable (s : TaskSnapshot) : ∀ op, Decidable (Booked s op)
  | .recordRun _ record => inferInstanceAs (Decidable (s.has record.taskId ∧
      0 ≤ record.scheduledFor ∧ record.taskId ∉ inheritedNames))
  | .upsertTask _ | .removeTask _ | .updateRun _ _ | .read => isTrue True.intro

/-- The cursor of each task is the greatest time recorded for it since it was last removed, and it
does not decrease in a step after which the task is there; no cursor is left of a task that is not
there, and one that is created starts from the time of its creation. -/
structure Right (past : List Operation) (s : TaskSnapshot) : Prop where
  greatest : ∀ id, Greatest (timesOf id past) (s.cursors id)
  removed : ∀ id, s.has id = false → s.cursors id = none
  monotone : ∀ op id m, Booked s op → s.cursors id = some m → (after op s).has id →
    ∃ m', (after op s).cursors id = some m' ∧ m ≤ m'
  created : ∀ task : TaskDefinition, s.has task.id = false →
    ((after (.upsertTask task) s).cursors task.id).getD task.createdAt = task.createdAt

theorem has_eq_true_iff {s : TaskSnapshot} {id : String} :
  s.has id ↔ ∃ task ∈ s.tasks, task.id = id
  := by
  rw [TaskSnapshot.has, any_eq_true]
  simp only [decide_eq_true_eq]

/-- A task is there after an operation on another one if it was before. -/
theorem has_after {op : Operation} {s : TaskSnapshot} {id : String} (h : op.ofTask id = false) :
  (after op s).has id = s.has id
  := by
  rw [Bool.eq_iff_iff, has_eq_true_iff, has_eq_true_iff]
  constructor
  · rintro ⟨task, hmem, rfl⟩
    use task, (mem_tasks_after h).mp hmem
  · rintro ⟨task, hmem, rfl⟩
    use task, (mem_tasks_after h).mpr hmem

theorem has_upsertTask (task : TaskDefinition) (s : TaskSnapshot) :
  (after (.upsertTask task) s).has task.id
  := has_eq_true_iff.mpr ⟨task, mem_upsertTask task s, rfl⟩

theorem not_has_removeTask (id : String) (s : TaskSnapshot) :
  (after (.removeTask id) s).has id = false
  := by
  apply eq_false_of_ne_true
  intro h
  obtain ⟨task, hmem, hid⟩ := has_eq_true_iff.mp h
  apply not_mem_removeTask hmem hid

/-- A removal takes the cursor of the task, and nothing if there is no such task. -/
theorem cursors_removeTask (id other : String) (s : TaskSnapshot) :
  (after (.removeTask id) s).cursors other =
    if other = id ∧ s.has id = true then none else s.cursors other
  := by
  change ((removeTask id s).getD s).cursors other = _
  rw [removeTask]
  change (Option.getD (if s.has id = true then _ else _) s).cursors other = _
  by_cases hhas : s.has id
  · rw [if_pos hhas]
    by_cases hid : other = id
    · rw [if_pos ⟨hid, hhas⟩, hid]
      apply Function.update_self
    · rw [if_neg fun h => hid h.1]
      apply Function.update_of_ne hid
  · rw [if_neg hhas, if_neg fun h => hhas h.2]
    rfl

/-- A run that is recorded moves the cursor of its task. -/
theorem cursors_recordRun (retention : ℕ) (record : TaskRunRecord) (id : String)
    (s : TaskSnapshot) :
  (after (.recordRun retention record) s).cursors id =
    if id = record.taskId then some (max ((s.cursors id).getD 0) record.scheduledFor)
    else s.cursors id
  := by
  split_ifs with hid
  · rw [hid]
    apply Function.update_self
  · apply Function.update_of_ne hid

/-- A change of a run moves no cursor. -/
theorem cursors_updateRun (runId : String) (patch : TaskRunPatch) (s : TaskSnapshot) :
  (after (.updateRun runId patch) s).cursors = s.cursors
  := by
  change ((updateRun runId patch s).getD s).cursors = _
  rw [updateRun]
  split_ifs
  · rfl
  · rfl

/-- One more time makes the greatest of them the greater of the two. -/
theorem Greatest.concat {times : List ℤ} {cursor : Option ℤ} (h : Greatest times cursor) {t : ℤ}
    (ht : 0 ≤ t) :
  Greatest (times ++ [t]) (some (max (cursor.getD 0) t))
  := by
  cases cursor with
  | none =>
    obtain rfl : times = [] := h
    change Greatest [t] (some (max 0 t))
    rw [max_eq_right ht]
    use mem_singleton_self t
    intro u hu
    rw [mem_singleton.mp hu]
  | some m =>
  obtain ⟨hmem, hle⟩ := h
  constructor
  · rcases max_choice m t with heq | heq
    · change max m t ∈ _
      rw [heq]
      apply mem_append_left _ hmem
    · change max m t ∈ _
      rw [heq]
      apply mem_append_right _ (mem_singleton_self t)
  intro u hu
  rcases mem_append.mp hu with hu | hu
  · apply (hle u hu).trans (le_max_left ..)
  · rw [mem_singleton.mp hu]
    apply le_max_right

variable {past : List Operation} {s : TaskSnapshot}

/-- An operation moves a cursor only forward, unless it removes the task. -/
theorem monotone_after (op : Operation) {id : String} {m : ℤ} (hcur : s.cursors id = some m)
    (hhas : (after op s).has id) :
  ∃ m', (after op s).cursors id = some m' ∧ m ≤ m'
  := by
  cases op with
  | upsertTask task => use m, hcur
  | removeTask other =>
    use m
    rw [cursors_removeTask, if_neg, hcur]
    · exact ⟨rfl, le_refl m⟩
    · rintro ⟨rfl, -⟩
      rw [not_has_removeTask] at hhas
      contradiction
  | recordRun retention record =>
    rw [cursors_recordRun, hcur]
    split_ifs with hid
    · use max m record.scheduledFor, rfl
      apply le_max_left
    · use m
  | updateRun runId patch =>
    use m
    rw [cursors_updateRun]
    use hcur
  | read => use m, hcur

/-- Where the cursors are those of the tasks that are there, all is right. -/
theorem Right.of_greatest (hgreat : ∀ id, Greatest (timesOf id past) (s.cursors id))
    (hrem : ∀ id, s.has id = false → s.cursors id = none) :
  Right past s
  := by
  constructor
  · apply hgreat
  · apply hrem
  · intro op id m _ hcur hhas
    apply monotone_after op hcur hhas
  intro task hhas
  change (s.cursors task.id).getD task.createdAt = task.createdAt
  rw [hrem task.id hhas]
  rfl

theorem right_empty :
  Right [] TaskSnapshot.empty
  := by
  apply Right.of_greatest
  · intro id
    rfl
  · intro id _
    rfl

/-- An operation that is booked keeps the cursors right. -/
theorem Right.after (h : Right past s) {op : Operation} (hbooked : Booked s op) :
  Right (past ++ [op]) (after op s)
  := by
  apply Right.of_greatest
  · intro id
    rw [timesOf_append_singleton]
    cases op with
    | upsertTask task => apply h.greatest
    | removeTask other =>
      rw [cursors_removeTask]
      change Greatest (if other = id then [] else timesOf id past) _
      by_cases hid : other = id
      · rw [if_pos hid]
        cases hhas : s.has other with
        | true =>
          rw [if_pos ⟨hid.symm, rfl⟩]
          rfl
        | false =>
          rw [hid] at hhas
          rw [if_neg (by simp), h.removed id hhas]
          rfl
      · rw [if_neg hid, if_neg fun hand => hid hand.1.symm]
        apply h.greatest
    | recordRun retention record =>
      rw [cursors_recordRun]
      change Greatest (if record.taskId = id then timesOf id past ++ [_] else _) _
      by_cases hid : record.taskId = id
      · rw [if_pos hid, if_pos hid.symm]
        apply (h.greatest id).concat hbooked.2.1
      · rw [if_neg hid, if_neg (Ne.symm hid)]
        apply h.greatest
    | updateRun runId patch =>
      rw [cursors_updateRun]
      apply h.greatest
    | read => apply h.greatest
  intro id hhas
  cases op with
  | upsertTask task =>
    change s.cursors id = none
    apply h.removed
    rw [← hhas, has_after]
    apply decide_eq_false
    rintro rfl
    rw [has_upsertTask] at hhas
    contradiction
  | removeTask other =>
    rw [cursors_removeTask]
    split_ifs with hand
    · rfl
    apply h.removed
    by_cases hid : other = id
    · subst hid
      apply eq_false_of_ne_true
      intro htrue
      apply hand ⟨rfl, htrue⟩
    · rw [← hhas, has_after]
      apply decide_eq_false hid
  | recordRun retention record =>
    have hsame : s.has id = false := hhas
    rw [cursors_recordRun, if_neg]
    · apply h.removed id hsame
    · rintro rfl
      rw [hbooked.1] at hsame
      contradiction
  | updateRun runId patch =>
    rw [cursors_updateRun]
    apply h.removed
    rw [← hhas, has_after rfl]
  | read => apply h.removed id hhas

/-- A daily task. -/
def cursorTask : TaskDefinition where
  id := "nightly-sync"
  name := "sync"
  enabled := true
  cwd := "/srv"
  schedule := .interval 60000 (not_lt.1 (lt_irrefl _))
  timezone := none
  missedRun := .skip
  overlap := .skip
  configHash := none
  createdAt := 9000
  createdAt_pos := by decide

/-- A run of this task, missed at this time. -/
def missedRun (scheduledFor : ℤ) : TaskRunRecord where
  runId := "run"
  taskId := "nightly-sync"
  status := .missed
  scheduledFor := scheduledFor
  startedAt := none
  finishedAt := none
  sessionId := none
  exitCode := none
  error := none

end Storage.TaskStore
