import VolundCode.Lib.Ecma
import VolundCode.Lib.Run

/-!
# Backups of the files of a session

Before a batch of changes to files, the files are copied to the objects of the session, which are
named by what is in them. Afterwards the manifest gets a record for each file, before those of the
earlier batches. To undo a batch, its files are copied back and its records marked as consumed; to
restore the session, this is done for the first record of each file.

A session as it is meant is a list of batches, each with what it found and what it left. What the
store does with its records and objects is what this says (`run_reflects`).
-/

namespace Storage

namespace BackupStore

open Run

/-! ### Records -/

/-- The digest of the bytes of a file. Different bytes have different digests. -/
structure Digest (B H : Type) where
  sourceHash : B → H
  injective : Function.Injective sourceHash

/-- What is known of a file before a batch. A backup is named by its digest. -/
structure Capture (H : Type) where
  path : String
  existed : Bool
  beforeHash : Option H
  backupPath : Option H
deriving DecidableEq

/-- What a batch did to a file. -/
structure BackupRecord (H : Type) where
  path : String
  existed : Bool
  beforeHash : Option H
  afterHash : H
  backupPath : Option H
  createdAt : ℤ
  stepId : Option String
  consumedAt : Option ℤ
deriving DecidableEq

/-- What is in the regular files, where there are any. -/
abbrev Files (B : Type) := String → Option B

/-- The files, and the objects and the manifest of the session. -/
structure State (B H : Type) where
  files : Files B
  objects : H → Option B
  manifest : Option (List (BackupRecord H))

/-- Before the first batch. -/
def State.fresh {B H : Type} (files : Files B) : State B H where
  files := files
  objects := fun _ => none
  manifest := none

variable {B H : Type} [DecidableEq H]

/-! ### Batches -/

/-- What is known of a file. -/
def capture (d : Digest B H) (files : Files B) (path : String) : Capture H :=
  match files path with
  | some bytes =>
    { path := path
      existed := true
      beforeHash := some (d.sourceHash bytes)
      backupPath := some (d.sourceHash bytes) }
  | none => { path := path, existed := false, beforeHash := none, backupPath := none }

/-- The objects with a copy of a file, unless there is one of this name. -/
def copyObject (d : Digest B H) (files : Files B) (objects : H → Option B) (path : String) :
    H → Option B :=
  match files path with
  | some bytes =>
    if (objects (d.sourceHash bytes)).isNone then
      Function.update objects (d.sourceHash bytes) (some bytes)
    else objects
  | none => objects

/-- `prepare`: each file is known and has a copy. -/
def prepare (d : Digest B H) (inputPaths : List String) (s : State B H) :
    List (Capture H) × State B H :=
  let paths := inputPaths.eraseDups
  (paths.map (capture d s.files),
    { s with objects := paths.foldl (copyObject d s.files) s.objects })

/-- The record of a file that is there. -/
def recordOf (d : Digest B H) (files : Files B) (createdAt : ℤ) (stepId : String)
    (c : Capture H) : Option (BackupRecord H) :=
  (files c.path).map fun bytes =>
    { path := c.path
      existed := c.existed
      beforeHash := c.beforeHash
      afterHash := d.sourceHash bytes
      backupPath := c.backupPath
      createdAt := createdAt
      stepId := some stepId
      consumedAt := none }

/-- `appendRecords`: new records come before those of the manifest. -/
def appendRecords (records : List (BackupRecord H)) (s : State B H) : State B H :=
  { s with manifest := some (records ++ s.manifest.getD []) }

/-- `commit`: the files get records. It throws where a file is not there. -/
def commit (d : Digest B H) (createdAt : ℤ) (stepId : String) (captures : List (Capture H))
    (s : State B H) : Option (State B H) :=
  (captures.mapM (recordOf d s.files createdAt stepId)).map fun records => appendRecords records s

/-- The files after some writes. -/
def write (files : Files B) (writes : List (String × B)) : Files B :=
  writes.foldl (fun files w => Function.update files w.1 (some w.2)) files

/-- A batch that is committed: the files are written between `prepare` and `commit`. -/
def mutate (d : Digest B H) (createdAt : ℤ) (stepId : String) (writes : List (String × B))
    (s : State B H) : Option (State B H) :=
  let prepared := prepare d (writes.map Prod.fst) s
  commit d createdAt stepId prepared.1 { prepared.2 with files := write s.files writes }

/-! ### Undoing a batch -/

/-- What the records of a batch have in common. -/
def BackupRecord.key (r : BackupRecord H) : String ⊕ ℤ :=
  match r.stepId with
  | some stepId => .inl stepId
  | none => .inr r.createdAt

/-- `undoStepsOf`: the records of each batch. -/
def undoStepsOf (records : List (BackupRecord H)) : List (List (BackupRecord H)) :=
  records.splitBy fun r r' => r.key = r'.key

/-- `undoRecordKey`: what a record is known by. -/
def undoRecordKey (r : BackupRecord H) : String × ℤ × String × Option H :=
  (r.path, r.createdAt, r.stepId.getD "", r.beforeHash)

inductive WarningKind where
  | backup_missing
  | target_modified
deriving DecidableEq

structure UndoStepWarning where
  path : String
  kind : WarningKind
deriving DecidableEq

structure UndoStepResult where
  undone : Bool
  paths : List String
  warnings : List UndoStepWarning
  stepCreatedAt : Option ℤ
deriving DecidableEq

/-- There is nothing to undo. -/
def UndoStepResult.noBackup : UndoStepResult where
  undone := false
  paths := []
  warnings := []
  stepCreatedAt := none

/-- What there is to say about a file before it is put back. -/
def undoWarnings (d : Digest B H) (s : State B H) (r : BackupRecord H) : List UndoStepWarning :=
  match r.existed, r.backupPath with
  | true, some backup =>
    (if (s.objects backup).isNone then [{ path := r.path, kind := .backup_missing }] else []) ++
      match s.files r.path with
      | some bytes =>
        if d.sourceHash bytes ≠ r.afterHash ∧ some (d.sourceHash bytes) ≠ r.beforeHash then
          [{ path := r.path, kind := .target_modified }]
        else []
      | none => []
  | _, _ => []

/-- A file is put back, unless its backup is missing. -/
def undoRecord (objects : H → Option B) (files : Files B) (r : BackupRecord H) : Files B :=
  match r.existed, r.backupPath with
  | true, some backup =>
    match objects backup with
    | some bytes => Function.update files r.path (some bytes)
    | none => files
  | _, _ => Function.update files r.path none

/-- The record, marked as consumed if it is one of the step. -/
def consume (consumedAt : ℤ) (step : List (BackupRecord H)) (r : BackupRecord H) :
    BackupRecord H :=
  if r.consumedAt.isNone && (step.map undoRecordKey).contains (undoRecordKey r) then
    { r with consumedAt := some consumedAt }
  else r

/-- `markConsumed`: the records of the step are marked. -/
def markConsumed (consumedAt : ℤ) (step : List (BackupRecord H)) (s : State B H) : State B H :=
  { s with manifest := s.manifest.map fun records => records.map (consume consumedAt step) }

/-- One file of a batch: what there is to say is said of the files as they are by now. -/
def undoTurn (d : Digest B H) (objects : H → Option B)
    (undone : List UndoStepWarning × Files B) (r : BackupRecord H) :
    List UndoStepWarning × Files B :=
  (undone.1 ++ undoWarnings d { files := undone.2, objects := objects, manifest := none } r,
    undoRecord objects undone.2 r)

/-- `consumeUndoStep`: the files of a batch are put back, and its records marked. -/
def consumeUndoStep (d : Digest B H) (consumedAt : ℤ) (step : List (BackupRecord H))
    (s : State B H) : UndoStepResult × State B H :=
  let undone := step.foldl (undoTurn d s.objects) ([], s.files)
  ({ undone := true
     paths := Ecma.toSorted (step.map BackupRecord.path).eraseDups
     warnings := undone.1
     stepCreatedAt := step.head?.map BackupRecord.createdAt },
    markConsumed consumedAt step { s with files := undone.2 })

/-- The newest batch that is not consumed and of which `pick` holds. -/
def undoTarget (pick : List (BackupRecord H) → Bool) (s : State B H) :
    Option (List (BackupRecord H)) :=
  (undoStepsOf (s.manifest.getD [])).find? fun records =>
    records.all (fun r => r.consumedAt.isNone) && pick records

/-- The newest batch of which `pick` holds is undone, if there is one. -/
def undoPicked (d : Digest B H) (pick : List (BackupRecord H) → Bool) (consumedAt : ℤ)
    (s : State B H) : UndoStepResult × State B H :=
  match undoTarget pick s with
  | some step => consumeUndoStep d consumedAt step s
  | none => (UndoStepResult.noBackup, s)

/-- `undoStep`: the newest batch is undone. -/
def undoStep (d : Digest B H) (consumedAt : ℤ) (s : State B H) : UndoStepResult × State B H :=
  undoPicked d (fun _ => true) consumedAt s

/-- `undoPath`: the newest batch with the file is undone. -/
def undoPath (d : Digest B H) (path : String) (consumedAt : ℤ) (s : State B H) :
    UndoStepResult × State B H :=
  undoPicked d (fun records => records.any fun r => r.path = path) consumedAt s

/-! ### Restoring the session -/

structure RestoreResult where
  restored : List String
  conflicts : List String
  missing : Bool
  dryRun : Bool
deriving DecidableEq

/-- The first record of each file in the manifest, which is that of its newest batch. -/
def latestRecords (records : List (BackupRecord H)) : List (BackupRecord H) :=
  records.foldl (fun m r => if m.any (fun x => x.path = r.path) then m else m ++ [r]) []

/-- The last record of each file in the manifest, which is that of its oldest batch. -/
def originalRecords (records : List (BackupRecord H)) : List (BackupRecord H) :=
  records.foldl
    (fun m r =>
      if m.any (fun x => x.path = r.path) then m.map fun x => if x.path = r.path then r else x
      else m ++ [r])
    []

/-- What is in the file is neither what its newest batch left nor what its oldest batch found. -/
def conflicted (d : Digest B H) (files : Files B) (originals : List (BackupRecord H))
    (r : BackupRecord H) : Bool :=
  match originals.find? fun x => x.path = r.path with
  | none => true
  | some initial =>
    match files r.path with
    | some bytes =>
      decide (d.sourceHash bytes ≠ r.afterHash ∧ some (d.sourceHash bytes) ≠ initial.beforeHash)
    | none => initial.existed

/-- The file is as it was before the record. It throws where the backup is missing. -/
def restoreRecord (objects : H → Option B) (files : Files B) (r : BackupRecord H) :
    Option (Files B) :=
  match r.existed, r.backupPath with
  | true, some backup => (objects backup).map fun bytes => Function.update files r.path (some bytes)
  | _, _ => some (Function.update files r.path none)

/-- `restore`: every file is as it was before the session, unless one of them is in conflict.
Where it throws, the files are put back as they were. -/
def restore (d : Digest B H) (dryRun : Bool) (s : State B H) :
    Option (RestoreResult × State B H) :=
  match s.manifest with
  | none =>
    some ({ restored := [], conflicts := [], missing := true, dryRun := dryRun }, s)
  | some records =>
    let conflicts := ((latestRecords records).filter
      (conflicted d s.files (originalRecords records))).map BackupRecord.path
    if conflicts ≠ [] then
      some ({ restored := [], conflicts := conflicts, missing := false, dryRun := dryRun }, s)
    else
      let result : RestoreResult :=
        { restored := (latestRecords records).map BackupRecord.path
          conflicts := []
          missing := false
          dryRun := dryRun }
      if dryRun then some (result, s)
      else
        ((originalRecords records).reverse.foldlM (restoreRecord s.objects) s.files).map fun files =>
          (result, { s with files := files })

end BackupStore

end Storage
