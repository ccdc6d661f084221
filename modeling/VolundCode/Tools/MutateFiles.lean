import VolundCode.Lib.Fault
import VolundCode.Storage.BackupHistory

/-!
# Changing files, all or none

A list of updates of files is done under the locks of the files and after they have been backed
up. Where a step throws, the files are put back as they were, unless the transaction of the backups
is settled by then.

Either all updates are done, or the files are as before and the session has no record of the
updates, in all cases but one: where a step throws after the manifest with the new records has been
put in place (`allOrNothing_iff`).
-/

namespace Tools

open Effect Fault List Assign Or
open Storage.BackupStore (Files State Digest Capture BackupRecord Copied capture copyObject recordOf
  appendRecords)

/-- A file and what is to be in it. `expect` is the digest of what it is expected to hold. -/
structure Update (B K : Type) where
  path : String
  content : B
  expect : Option K
deriving DecidableEq

/-- The steps of a mutation that may fail. The number is that of the update. -/
inductive Operation where
  | lock (path : String)
  | guard (i : ℕ)
  | backup (path : String)
  | expect (i : ℕ)
  | makeDirectory (i : ℕ)
  | writeTemporary (i : ℕ)
  | replace (i : ℕ)
  | removeTemporary (i : ℕ)
  | verify (i : ℕ)
  | digest (path : String)
  | lockManifest
  | writeManifest
  | replaceManifest
  | closeManifest
  | gc
deriving DecidableEq

/-- What becomes of the steps, and whether the collection of old backups removes those of the
session. An update without a guard has one that is done. -/
structure Faults where
  fate : Operation → Fate
  collects : Bool

/-- Where the files are backed up. -/
inductive Port where
  | backupStore
  | ephemeral
deriving DecidableEq

/-- What is known of the files before they are changed. -/
inductive Transaction (B H : Type) where
  | backupStore (captures : List (Capture H))
  | ephemeral (snapshots : List (String × Option B))

/-- The files and the backups of the session, the locks that are held, and the transaction. -/
structure World (B H : Type) where
  store : State B H
  locked : List String
  transaction : Option (Transaction B H)
  settled : Bool

/-- Before the mutation. -/
def World.start {B H : Type} (store : State B H) : World B H where
  store := store
  locked := []
  transaction := none
  settled := false

/-- What a mutation depends on: the digests of files, and the shorter ones that are shown to the
model. -/
structure Externals (B H K : Type) where
  digest : Digest B H
  contentHash : B → K

variable {B H K : Type} [DecidableEq H] [DecidableEq K]

/-! ### Steps -/

/-- The world with other files. -/
def World.withFiles (w : World B H) (files : Files B) : World B H :=
  { w with store := { w.store with files := files } }

/-- The world with other objects. -/
def World.withObjects (w : World B H) (objects : H → Option B) : World B H :=
  { w with store := { w.store with objects := objects } }

/-- `acquireFileLock`. -/
def acquire (f : Faults) (path : String) : Effect Stop (World B H) Unit :=
  attempt (f.fate (.lock path)) fun w => { w with locked := w.locked ++ [path] }

/-- `prepare`: every file is copied. All copies are made even if one of them fails. -/
def prepareBackups (env : Externals B H K) (f : Faults) (paths : List String) :
    Effect Stop (World B H) (Transaction B H) := do
  paths.forM fun path =>
    ignoring (attempt (f.fate (.backup path)) fun w =>
      w.withObjects (copyObject env.digest w.store.files w.store.objects path))
  if paths.any fun path => f.fate (.backup path) ≠ .done then throw .thrown
  else do
    let w ← get
    pure (.backupStore (paths.map (capture env.digest w.store.files)))

/-- `prepareEphemeralTransaction`: every file is read. -/
def prepareEphemeralTransaction (f : Faults) (paths : List String) :
    Effect Stop (World B H) (Transaction B H) := do
  paths.forM fun path => attempt (f.fate (.backup path)) id
  let w ← get
  pure (.ephemeral (paths.map fun path => (path, w.store.files path)))

/-- The transaction begins. -/
def prepare (env : Externals B H K) (f : Faults) (port : Port) (paths : List String) :
    Effect Stop (World B H) Unit := do
  let transaction ←
    match port with
    | .backupStore => prepareBackups env f paths
    | .ephemeral => prepareEphemeralTransaction f paths
  modify fun w => { w with transaction := some transaction }

/-- What is in the file has the expected digest, if one is expected. -/
def checkExpected (env : Externals B H K) (f : Faults) (u : Update B K × ℕ) :
    Effect Stop (World B H) Unit :=
  match u.1.expect with
  | none => pure ()
  | some hash => do
    attempt (f.fate (.expect u.2)) id
    let w ← get
    if (w.store.files u.1.path).map env.contentHash = some hash then pure () else throw .thrown

/-- `atomicWrite`: the content is written to a temporary file, which replaces the file. -/
def atomicWrite (f : Faults) (u : Update B K × ℕ) : Effect Stop (World B H) Unit := do
  attempt (f.fate (.makeDirectory u.2)) id
  ensuring
    (do
      attempt (f.fate (.writeTemporary u.2)) id
      attempt (f.fate (.replace u.2)) fun w =>
        w.withFiles (Function.update w.store.files u.1.path (some u.1.content)))
    (attempt (f.fate (.removeTemporary u.2)) id)

/-- What is in the file has the digest of the update. -/
def verify (env : Externals B H K) (f : Faults) (u : Update B K × ℕ) :
    Effect Stop (World B H) Unit := do
  attempt (f.fate (.verify u.2)) id
  let w ← get
  if (w.store.files u.1.path).map env.contentHash = some (env.contentHash u.1.content) then pure ()
  else throw .thrown

/-- `gc`: old backups are removed, which those of the session may be among. -/
def gc (f : Faults) : Effect Stop (World B H) Unit := do
  modify fun w =>
    if f.collects then
      { w with store := { w.store with objects := fun _ => none, manifest := none } }
    else w
  attempt (f.fate .gc) id

/-- The records are put before those of the manifest. -/
def putRecords (f : Faults) (records : List (BackupRecord H)) : Effect Stop (World B H) Unit := do
  attempt (f.fate .lockManifest) id
  ensuring
    (do
      attempt (f.fate .writeManifest) id
      attempt (f.fate .replaceManifest) fun w =>
        { w with store := appendRecords records w.store })
    (attempt (f.fate .closeManifest) id)

/-- The records of the captures, which are made of what is in the files now. -/
def makeRecords (env : Externals B H K) (f : Faults) (createdAt : ℤ) (stepId : String)
    (captures : List (Capture H)) : Effect Stop (World B H) (List (BackupRecord H)) := do
  captures.forM fun c => attempt (f.fate (.digest c.path)) id
  let w ← get
  match captures.mapM (recordOf env.digest w.store.files createdAt stepId) with
  | none => throw .thrown
  | some records => pure records

/-- `commit`: the transaction is settled once its records are in the manifest. -/
def commit (env : Externals B H K) (f : Faults) (createdAt : ℤ) (stepId : String) :
    Effect Stop (World B H) Unit := do
  let w ← get
  match w.transaction with
  | some (.backupStore captures) =>
    if w.settled then pure ()
    else do
      let records ← makeRecords env f createdAt stepId captures
      putRecords f records
      modify fun w => { w with settled := true }
      gc f
  | some (.ephemeral _) => modify fun w => { w with settled := true }
  | none => pure ()

/-- The files after those of the captures are put back, as far as their backups are there. -/
def restoreCaptures (objects : H → Option B) : List (Capture H) → Files B → Files B
  | [], files => files
  | c :: cs, files =>
    match c.backupPath with
    | some backup =>
      match objects backup with
      | some bytes => restoreCaptures objects cs (Function.update files c.path (some bytes))
      | none => files
    | none => restoreCaptures objects cs (Function.update files c.path none)

/-- `rollback`: the files are put back, unless the transaction is settled. -/
def rollback (w : World B H) : World B H :=
  if w.settled then w
  else
    match w.transaction with
    | some (.backupStore captures) =>
      w.withFiles (restoreCaptures w.store.objects captures.reverse w.store.files)
    | some (.ephemeral snapshots) =>
      w.withFiles (assign Prod.fst Prod.snd w.store.files snapshots.reverse)
    | none => w

/-- The files that the updates are about, in the order in which they are locked. -/
def pathsOf (updates : List (Update B K)) : List String :=
  Ecma.toSorted (updates.map Update.path).eraseDups

/-- The steps of a mutation up to the first that throws. -/
def attemptMutation (env : Externals B H K) (f : Faults) (port : Port) (createdAt : ℤ)
    (stepId : String) (updates : List (Update B K)) : Effect Stop (World B H) Unit := do
  (pathsOf updates).forM (acquire f)
  updates.zipIdx.forM fun u => attempt (f.fate (.guard u.2)) id
  prepare env f port (pathsOf updates)
  updates.zipIdx.forM (checkExpected env f)
  updates.zipIdx.forM (atomicWrite f)
  updates.zipIdx.forM (verify env f)
  commit env f createdAt stepId

/-- `mutateFiles`: all updates are done, or the transaction is rolled back. The locks are released
in any case. -/
def mutateFiles (env : Externals B H K) (f : Faults) (port : Port) (createdAt : ℤ)
    (stepId : String) (updates : List (Update B K)) : Effect Stop (World B H) Unit :=
  ensuring
    (catching (attemptMutation env f port createdAt stepId updates)
      (do
        modify rollback
        throw .thrown))
    (modify fun w => { w with locked := [] })

set_option linter.unusedSectionVars false

/-! ### All or none -/

/-- The files after all updates. -/
def updated (updates : List (Update B K)) (files : Files B) : Files B :=
  assign Update.path (fun u => some u.content) files updates

/-- Every file has the content of its last update, no other file is changed, and no lock is held. -/
structure Done (updates : List (Update B K)) (s : State B H) (w : World B H) : Prop where
  updated : ∀ older u newer, updates = older ++ u :: newer → u.path ∉ newer.map Update.path →
    w.store.files u.path = some u.content
  others : ∀ path, path ∉ updates.map Update.path → w.store.files path = s.files path
  locked : w.locked = []

/-- The files are as before, no record has been added, and no lock is held. -/
structure Undone (s : State B H) (w : World B H) : Prop where
  files : w.store.files = s.files
  records : w.store.manifest.getD [] <:+ s.manifest.getD []
  locked : w.locked = []

/-- If the mutation ends all is done, and if it throws nothing is. -/
def AllOrNothing (updates : List (Update B K)) (s : State B H)
    (mutation : Effect Stop (World B H) Unit) : Prop :=
  wp mutation (fun _ => Done updates s)
    (fun e w =>
      match e with
      | .thrown => Undone s w
      | .crashed => True)
    (World.start s)

/-- What the update expects of its file is there. -/
def Expected (env : Externals B H K) (f : Faults) (files : Files B) (u : Update B K × ℕ) : Prop :=
  ∀ hash ∈ u.1.expect,
    f.fate (.expect u.2) = .done ∧ (files u.1.path).map env.contentHash = some hash

/-- No step of the update fails while it is written. -/
def Written (f : Faults) (u : Update B K × ℕ) : Prop :=
  f.fate (.makeDirectory u.2) = .done ∧ f.fate (.writeTemporary u.2) = .done ∧
    f.fate (.replace u.2) = .done ∧ f.fate (.removeTemporary u.2) = .done

/-- After all updates, the file has the digest of this one. -/
def Verified (env : Externals B H K) (f : Faults) (files : Files B) (updates : List (Update B K))
    (u : Update B K × ℕ) : Prop :=
  f.fate (.verify u.2) = .done ∧
    (updated updates files u.1.path).map env.contentHash = some (env.contentHash u.1.content)

/-- No step fails up to that which puts the manifest with the new records in place. -/
structure Reaches (env : Externals B H K) (f : Faults) (updates : List (Update B K))
    (files : Files B) : Prop where
  paths : ∀ path ∈ pathsOf updates, f.fate (.lock path) = .done ∧ f.fate (.backup path) = .done ∧
    f.fate (.digest path) = .done
  guards : ∀ u ∈ updates.zipIdx, f.fate (.guard u.2) = .done
  expected : ∀ u ∈ updates.zipIdx, Expected env f files u
  written : ∀ u ∈ updates.zipIdx, Written f u
  verified : ∀ u ∈ updates.zipIdx, Verified env f files updates u
  manifest : f.fate .lockManifest = .done ∧ f.fate .writeManifest = .done ∧
    f.fate .replaceManifest = .done

/-- The manifest with the new records is put in place, and then a step throws: the one that closes
it, or the collection of old backups, unless this removes the records and the updates change
nothing. -/
def Late (env : Externals B H K) (f : Faults) (port : Port) (updates : List (Update B K))
    (files : Files B) : Prop :=
  port = .backupStore ∧ updates ≠ [] ∧ Reaches env f updates files ∧
    (f.fate .closeManifest = .fails ∨ f.fate .closeManifest = .done ∧ f.fate .gc = .fails ∧
        (f.collects → updated updates files ≠ files))

variable {updates : List (Update B K)}

/-- The paths are those of the updates. -/
theorem mem_pathsOf {path : String} :
  path ∈ pathsOf updates ↔ path ∈ updates.map Update.path
  := by
  rw [pathsOf, Ecma.toSorted, mem_mergeSort, mem_eraseDups]

/-! ### The rollback -/

/-- A transaction that is prepared for these files and has written no records. -/
structure Prepared (env : Externals B H K) (port : Port) (s : State B H) (paths : List String)
    (w : World B H) : Prop where
  manifest : w.store.manifest = s.manifest
  settled : w.settled = false
  transaction :
    match port with
    | .backupStore =>
      w.transaction = some (.backupStore (paths.map (capture env.digest s.files))) ∧
        ∀ path ∈ paths, ∀ bytes, s.files path = some bytes →
          w.store.objects (env.digest.sourceHash bytes) = some bytes
    | .ephemeral => w.transaction = some (.ephemeral (paths.map fun path => (path, s.files path)))

/-- A rollback puts the files back and leaves the records. -/
def Restorable (s : State B H) (w : World B H) : Prop :=
  (rollback w).store.files = s.files ∧ (rollback w).store.manifest = s.manifest

/-- Where the backups are there, the files of the captures are put back in turn. -/
theorem restoreCaptures_eq {d : Digest B H} {files₀ : Files B} {objects : H → Option B}
    {paths : List String} (h : ∀ path ∈ paths, ∀ bytes, files₀ path = some bytes →
      objects (d.sourceHash bytes) = some bytes) (files : Files B) :
  restoreCaptures objects (paths.map (capture d files₀)) files = assign id files₀ files paths
  := by
  induction paths generalizing files with
  | nil => rfl
  | cons path paths ih =>
  have hrest : ∀ p ∈ paths, ∀ bytes, files₀ p = some bytes →
      objects (d.sourceHash bytes) = some bytes := fun p hp =>
    h p (mem_cons_of_mem path hp)
  rw [map_cons, assign_cons, restoreCaptures.eq_def]
  cases hfile : files₀ path with
  | none =>
    simp only [capture, hfile]
    exact ih hrest _
  | some bytes =>
    simp only [capture, hfile, h path mem_cons_self bytes hfile]
    exact ih hrest _

/-- What is assigned under all keys that differ is what it is taken from. -/
theorem assign_eq_of_agree {files files₀ : Files B} {paths : List String}
    (h : ∀ path, path ∉ paths → files path = files₀ path) :
  assign id files₀ files paths = files₀
  := by
  funext path
  by_cases hpath : path ∈ paths
  · have hassigned : ∃ p ∈ paths, id p = path ∧ assign id files₀ files paths path = files₀ p :=
      exists_of_mem (by simpa using hpath)
    obtain ⟨p, -, rfl, hval⟩ := hassigned
    exact hval
  · rw [assign_of_notMem (by simpa using hpath), h path hpath]

variable {s : State B H}

/-- A prepared transaction whose files differ at its paths only can be rolled back. -/
theorem Prepared.restorable {env : Externals B H K} {port : Port}
    {paths : List String} {w : World B H} (h : Prepared env port s paths w)
    (hfiles : ∀ path, path ∉ paths → w.store.files path = s.files path) :
  Restorable s w
  := by
  have hreverse : ∀ path, path ∉ paths.reverse → w.store.files path = s.files path := by
    intro path hpath
    exact hfiles path fun hmem => hpath (mem_reverse.mpr hmem)
  have htx := h.transaction
  rw [Restorable, rollback, if_neg (by rw [h.settled]; decide)]
  cases port with
  | backupStore =>
    obtain ⟨heq, hobjs⟩ := htx
    rw [heq]
    constructor
    · change restoreCaptures _ (List.map _ _).reverse _ = _
      rw [← map_reverse, restoreCaptures_eq, assign_eq_of_agree hreverse]
      intro path hpath
      exact hobjs path (mem_reverse.mp hpath)
    · exact h.manifest
  | ephemeral =>
  rw [show w.transaction = _ from htx]
  constructor
  · change assign _ _ _ (List.map _ _).reverse = _
    rw [← map_reverse, assign, foldl_map]
    exact assign_eq_of_agree hreverse
  · exact h.manifest

/-! ### The steps before the commit -/

section Steps

variable {env : Externals B H K} {f : Faults} {port : Port} {updates : List (Update B K)}
  {s : State B H} {w : World B H}

/-- The mutation fails before the manifest with the new records is in place, and can be rolled
back. -/
def Early (env : Externals B H K) (f : Faults) (port : Port) (updates : List (Update B K))
    (s : State B H) (w : World B H) : Prop :=
  Restorable s w ∧ ¬(port = .backupStore ∧ Reaches env f updates s.files)

/-- A step that changes nothing leaves what is so, whatever becomes of it. -/
theorem wp_attempt_id {Q : World B H → Prop} {E : Stop → World B H → Prop} {fate : Fate}
    (hQ : Q w) (hE : ∀ e, E e w) :
  wp (attempt fate id) (fun _ => Q) E w
  := by
  rw [wp_attempt]
  cases fate with
  | done => exact hQ
  | fails => exact hE .thrown
  | crashes => exact hE .crashed

/-- There is no transaction yet, and the files and the manifest are as before. -/
structure Locking (s : State B H) (w : World B H) : Prop where
  files : w.store.files = s.files
  manifest : w.store.manifest = s.manifest
  transaction : w.transaction = none
  settled : w.settled = false

/-- Nothing but locks has been taken. -/
def Waiting (s : State B H) (w : World B H) : Prop :=
  Locking s w ∧ w.store.objects = s.objects

/-- Before the transaction there is nothing to roll back. -/
theorem Locking.restorable (h : Locking s w) :
  Restorable s w
  := by
  rw [Restorable, rollback, if_neg (by rw [h.settled]; decide), h.transaction]
  exact ⟨h.files, h.manifest⟩

/-- A step that does nothing but may fail is passed only where it is done. -/
theorem wp_attempt_of {I : World B H → Prop} {E : Stop → World B H → Prop} {fate : Fate}
    {act : World B H → World B H} (hI : I (act w)) (hE : fate ≠ .done → ∀ e, E e w) :
  wp (attempt fate act) (fun _ t => I t ∧ fate = .done) E w
  := by
  rw [wp_attempt]
  cases fate with
  | done => exact ⟨hI, rfl⟩
  | fails => exact hE (by decide) .thrown
  | crashes => exact hE (by decide) .crashed

/-- The locks are taken. -/
theorem acquire_wp (h : Waiting s w) :
  wp ((pathsOf updates).forM (acquire f))
    (fun _ t => Waiting s t ∧ ∀ path ∈ pathsOf updates, f.fate (.lock path) = .done)
    (fun _ t => Early env f port updates s t) w
  := by
  apply wp_forM_all _ h
  rintro path hpath t ⟨ht, hobjs⟩
  apply wp_attempt_of
  · exact ⟨⟨ht.files, ht.manifest, ht.transaction, ht.settled⟩, hobjs⟩
  intro hfate _
  use ht.restorable
  rintro ⟨-, hreach⟩
  exact hfate (hreach.paths path hpath).1

/-- The guards are asked. -/
theorem guard_wp (h : Waiting s w) :
  wp (updates.zipIdx.forM fun u => attempt (f.fate (.guard u.2)) id)
    (fun _ t => Waiting s t ∧ ∀ u ∈ updates.zipIdx, f.fate (.guard u.2) = .done)
    (fun _ t => Early env f port updates s t) w
  := by
  apply wp_forM_all _ h
  intro u hu t ht
  apply wp_attempt_of ht
  intro hfate _
  use ht.1.restorable
  rintro ⟨-, hreach⟩
  exact hfate (hreach.guards u hu)

/-- A transaction that has just begun. -/
def Begun (env : Externals B H K) (port : Port) (updates : List (Update B K)) (s : State B H)
    (w : World B H) : Prop :=
  Prepared env port s (pathsOf updates) w ∧ w.store.files = s.files

/-- What has begun can be rolled back. -/
theorem Begun.restorable (h : Begun env port updates s w) :
  Restorable s w
  := by
  apply h.1.restorable
  intro path _
  rw [h.2]

/-- A mutation that cannot copy or read a file can be rolled back. -/
theorem Locking.early {path : String} (h : Locking s w) (hpath : path ∈ pathsOf updates)
    (hfate : f.fate (.backup path) ≠ .done) :
  Early env f port updates s w
  := by
  use h.restorable
  rintro ⟨-, hreach⟩
  exact hfate (hreach.paths path hpath).2.1

/-- The files are copied. -/
theorem prepareBackups_wp
    (hnamed : ∀ name bytes, s.objects name = some bytes → env.digest.sourceHash bytes = name)
    (h : Waiting s w) :
  wp (prepareBackups env f (pathsOf updates))
    (fun transaction t => Begun env .backupStore updates s { t with transaction := some transaction } ∧
      ∀ path ∈ pathsOf updates, f.fate (.backup path) = .done)
    (fun _ t => Early env f port updates s t) w
  := by
  rw [prepareBackups, wp_bind]
  apply wp_mono (wp_forM (E := fun _ t => Early env f port updates s t)
    (I := fun past t => Locking s t ∧
      Copied env.digest s.files s.objects (past.filter fun path => f.fate (.backup path) = .done)
        t.store.objects) _ _)
  · rintro - t ⟨ht, hcopied⟩
    rw [wp_ite]
    split_ifs with hany
    · obtain ⟨path, hpath, hfate⟩ := any_eq_true.mp hany
      exact ht.early hpath (of_decide_eq_true hfate)
    have hall : ∀ path ∈ pathsOf updates, f.fate (.backup path) = .done := by
      intro path hpath
      by_contra hne
      exact hany (any_eq_true.mpr ⟨path, hpath, decide_eq_true hne⟩)
    rw [filter_eq_self.mpr fun path hpath => decide_eq_true (hall path hpath)] at hcopied
    refine ⟨⟨⟨ht.manifest, ht.settled, ?_⟩, ht.files⟩, hall⟩
    rw [ht.files]
    exact ⟨rfl, hcopied.added⟩
  · intro _ t ht
    exact ht
  · rintro past path rest t heq ⟨ht, hcopied⟩
    have hpath : path ∈ pathsOf updates := by
      rw [heq]
      exact mem_append_right _ mem_cons_self
    rw [wp_ignoring, wp_attempt, filter_append]
    cases hfate : f.fate (.backup path) with
    | done =>
      refine ⟨⟨ht.files, ht.manifest, ht.transaction, ht.settled⟩, ?_⟩
      rw [filter_singleton, hfate]
      change Copied _ _ _ (_ ++ [path]) (copyObject _ t.store.files t.store.objects path)
      rw [ht.files]
      exact hcopied.snoc
    | fails =>
      use ht
      rw [filter_singleton, hfate, decide_eq_false (by decide)]
      simpa using hcopied
    | crashes => exact ht.early hpath (by rw [hfate]; decide)
  · use h.1
    rw [h.2]
    exact ⟨hnamed, fun _ _ h => h, by simp⟩

/-- The files are read. -/
theorem prepareEphemeralTransaction_wp (h : Locking s w) :
  wp (prepareEphemeralTransaction f (pathsOf updates))
    (fun transaction t => Begun env .ephemeral updates s { t with transaction := some transaction } ∧
      ∀ path ∈ pathsOf updates, f.fate (.backup path) = .done)
    (fun _ t => Early env f port updates s t) w
  := by
  rw [prepareEphemeralTransaction, wp_bind]
  have hread : wp ((pathsOf updates).forM fun path => attempt (f.fate (.backup path)) id)
      (fun _ t => Locking s t ∧ ∀ path ∈ pathsOf updates, f.fate (.backup path) = .done)
      (fun _ t => Early env f port updates s t) w := by
    apply wp_forM_all _ h
    intro path hpath t ht
    apply wp_attempt_of ht
    intro hfate _
    exact ht.early hpath hfate
  apply wp_mono hread
  · rintro - t ⟨ht, hall⟩
    refine ⟨⟨⟨ht.manifest, ht.settled, ?_⟩, ht.files⟩, hall⟩
    rw [ht.files]
  · intro _ t ht
    exact ht

/-- The transaction begins. -/
theorem prepare_wp
    (hnamed : ∀ name bytes, s.objects name = some bytes → env.digest.sourceHash bytes = name)
    (h : Waiting s w) :
  wp (prepare env f port (pathsOf updates))
    (fun _ t => Begun env port updates s t ∧
      ∀ path ∈ pathsOf updates, f.fate (.backup path) = .done)
    (fun _ t => Early env f port updates s t) w
  := by
  cases port with
  | backupStore =>
    rw [prepare, wp_bind]
    exact prepareBackups_wp hnamed h
  | ephemeral =>
    rw [prepare, wp_bind]
    exact prepareEphemeralTransaction_wp h.1

/-- The files are what they are expected to be. -/
theorem checkExpected_wp (h : Begun env port updates s w) :
  wp (updates.zipIdx.forM (checkExpected env f))
    (fun _ t => Begun env port updates s t ∧ ∀ u ∈ updates.zipIdx, Expected env f s.files u)
    (fun _ t => Early env f port updates s t) w
  := by
  apply wp_forM_all _ h
  intro u hu t ht
  have hearly : ¬Expected env f s.files u → Early env f port updates s t := by
    intro hnot
    use ht.restorable
    rintro ⟨-, hreach⟩
    exact hnot (hreach.expected u hu)
  rw [checkExpected]
  cases hexpect : u.1.expect with
  | none =>
    use ht
    intro hash hhash
    rw [hexpect] at hhash
    cases hhash
  | some hash =>
  have hfate : f.fate (.expect u.2) ≠ .done → Early env f port updates s t := by
    intro hne
    exact hearly fun hexp => hne (hexp hash hexpect).1
  rw [wp_bind]
  apply wp_mono (wp_attempt_of (I := Begun env port updates s)
    (E := fun _ t => Early env f port updates s t) ht fun hne _ => hfate hne)
  · rintro - t' ⟨ht', hdone⟩
    rw [wp_bind, wp_get, wp_ite, ht'.2]
    split_ifs with hhash
    · use ht'
      intro hash' hhash'
      obtain rfl := Option.some.inj (hexpect.symm.trans hhash')
      exact ⟨hdone, hhash⟩
    · use ht'.restorable
      rintro ⟨-, hreach⟩
      exact hhash (hreach.expected u hu hash hexpect).2
  · intro _ t' ht'
    exact ht'

/-- Some of the updates have been written. -/
def Writing (env : Externals B H K) (port : Port) (updates : List (Update B K)) (s : State B H)
    (us : List (Update B K)) (w : World B H) : Prop :=
  Prepared env port s (pathsOf updates) w ∧ w.store.files = updated us s.files

/-- Updates that have been written can be rolled back. -/
theorem Writing.restorable {us : List (Update B K)} (h : Writing env port updates s us w)
    (hus : ∀ u ∈ us, u ∈ updates) :
  Restorable s w
  := by
  apply h.1.restorable
  intro path hpath
  rw [h.2]
  apply assign_of_notMem
  intro hmem
  obtain ⟨u, hu, rfl⟩ := mem_map.mp hmem
  exact hpath (mem_pathsOf.mpr (mem_map_of_mem (hus u hu)))

/-- An update is written. -/
theorem atomicWrite_turn {us : List (Update B K)} {u : Update B K × ℕ}
    (hu : u ∈ updates.zipIdx) (hus : ∀ u ∈ us, u ∈ updates) (h : Writing env port updates s us w) :
  wp (atomicWrite f u)
    (fun _ t => Writing env port updates s (us ++ [u.1]) t ∧ Written f u)
    (fun _ t => Early env f port updates s t) w
  := by
  have hmem : u.1 ∈ updates := (mem_zipIdx' hu).2 ▸ getElem_mem _
  have hwrote : ∀ vs, (∀ v ∈ vs, v ∈ updates) → ∀ t, Writing env port updates s vs t →
      ¬Written f u → Early env f port updates s t := by
    intro vs hvs t ht hnot
    use ht.restorable hvs
    rintro ⟨-, hreach⟩
    exact hnot (hreach.written u hu)
  have hsnoc : ∀ v ∈ us ++ [u.1], v ∈ updates := by
    simp only [forall_mem_append, forall_mem_singleton]
    exact ⟨hus, hmem⟩
  have hpre : ¬Written f u → Early env f port updates s w := hwrote us hus w h
  rw [atomicWrite, wp_bind, wp_attempt]
  cases hdir : f.fate (.makeDirectory u.2) with
  | fails | crashes => exact hpre fun hw => by simp [Written, hdir] at hw
  | done =>
  rw [wp_ensuring, wp_bind, wp_attempt]
  cases htemp : f.fate (.writeTemporary u.2) with
  | crashes => exact hpre fun hw => by simp [Written, htemp] at hw
  | fails =>
    have hearly := hpre fun hw => by simp [Written, htemp] at hw
    exact wp_attempt_id (E := fun _ t => Early env f port updates s t) hearly fun _ => hearly
  | done =>
  rw [wp_attempt]
  cases hrepl : f.fate (.replace u.2) with
  | crashes => exact hpre fun hw => by simp [Written, hrepl] at hw
  | fails =>
    have hearly := hpre fun hw => by simp [Written, hrepl] at hw
    exact wp_attempt_id (E := fun _ t => Early env f port updates s t) hearly
      fun _ => hearly
  | done =>
  have hnext : Writing env port updates s (us ++ [u.1])
      (w.withFiles (Function.update w.store.files u.1.path (some u.1.content))) := by
    use ⟨h.1.manifest, h.1.settled, h.1.transaction⟩
    rw [updated, assign_append, assign_cons, assign_nil, ← updated, ← h.2]
    rfl
  have hafter := hwrote _ hsnoc _ hnext
  change wp (attempt _ id) _ _ (w.withFiles _)
  rw [wp_attempt]
  cases hremove : f.fate (.removeTemporary u.2) with
  | done => exact ⟨hnext, hdir, htemp, hrepl, hremove⟩
  | fails | crashes => exact hafter fun hw => by simp [Written, hremove] at hw

/-- The updates are written. -/
theorem atomicWrite_wp (h : Begun env port updates s w) :
  wp (updates.zipIdx.forM (atomicWrite f))
    (fun _ t => Writing env port updates s updates t ∧ ∀ u ∈ updates.zipIdx, Written f u)
    (fun _ t => Early env f port updates s t) w
  := by
  have hupd : updates.zipIdx.map Prod.fst = updates := zipIdx_map_fst 0 updates
  have hloop : wp (updates.zipIdx.forM (atomicWrite f))
      (fun _ t => Writing env port updates s (updates.zipIdx.map Prod.fst) t ∧
        ∀ u ∈ updates.zipIdx, Written f u)
      (fun _ t => Early env f port updates s t) w := by
    apply wp_forM (I := fun past t => Writing env port updates s (past.map Prod.fst) t ∧
      ∀ u ∈ past, Written f u)
    · rintro past u rest t heq ⟨ht, hall⟩
      have hu : u ∈ updates.zipIdx := by simp [heq]
      have hus : ∀ v ∈ past.map Prod.fst, v ∈ updates := by
        intro v hv
        rw [← hupd, heq, map_append]
        exact mem_append_left _ hv
      apply wp_mono (atomicWrite_turn hu hus ht)
      · rintro - t' ⟨ht', hwrote⟩
        rw [map_append, map_singleton]
        use ht'
        simp only [forall_mem_append, forall_mem_singleton]
        exact ⟨hall, hwrote⟩
      · intro _ t' ht'
        exact ht'
    · use ⟨h.1, h.2⟩
      simp
  rw [hupd] at hloop
  exact hloop

/-- What has been written is read back. -/
theorem verify_wp (h : Writing env port updates s updates w) :
  wp (updates.zipIdx.forM (verify env f))
    (fun _ t => Writing env port updates s updates t ∧
      ∀ u ∈ updates.zipIdx, Verified env f s.files updates u)
    (fun _ t => Early env f port updates s t) w
  := by
  apply wp_forM_all _ h
  intro u hu t ht
  have hearly : ¬Verified env f s.files updates u → Early env f port updates s t := by
    intro hnot
    use ht.restorable fun _ hv => hv
    rintro ⟨-, hreach⟩
    exact hnot (hreach.verified u hu)
  rw [verify, wp_bind, wp_attempt]
  cases hfate : f.fate (.verify u.2) with
  | fails | crashes => exact hearly fun hv => by simp [Verified, hfate] at hv
  | done =>
  change wp (get >>= _) _ _ t
  rw [wp_bind, wp_get, wp_ite, ht.2]
  split_ifs with hhash
  · exact ⟨ht, hfate, hhash⟩
  · exact hearly fun hv => hhash hv.2

/-! ### The commit -/

/-- The records of the session with those of the updates before them. -/
def Recorded (updates : List (Update B K)) (s : State B H) (manifest : Option (List (BackupRecord H))) :
    Prop :=
  ∃ records : List (BackupRecord H), records.length = (pathsOf updates).length ∧
    manifest = some (records ++ s.manifest.getD [])

/-- What has become of a step for which the mutation does not come to its end. -/
def fateOf : Stop → Fate
  | .thrown => .fails
  | .crashed => .crashes

/-- The mutation fails after the manifest with the new records has been put in place: when it is
closed, and the files are put back but not the manifest; or when old backups are collected, and
nothing is put back. -/
def Overdue (env : Externals B H K) (f : Faults) (port : Port) (updates : List (Update B K))
    (s : State B H) (e : Stop) (w : World B H) : Prop :=
  port = .backupStore ∧ Reaches env f updates s.files ∧
    (f.fate .closeManifest = fateOf e ∧ (rollback w).store.files = s.files ∧
        Recorded updates s (rollback w).store.manifest ∨
      f.fate .closeManifest = .done ∧ f.fate .gc = fateOf e ∧ w.settled ∧
        w.store.files = updated updates s.files ∧
          if f.collects then w.store.manifest = none else Recorded updates s w.store.manifest)

/-- The mutation has come to its end, and no step has failed on the way there. -/
def Ended (f : Faults) (port : Port) (updates : List (Update B K)) (s : State B H)
    (w : World B H) : Prop :=
  w.store.files = updated updates s.files ∧
    (port = .backupStore → f.fate .closeManifest = .done ∧ f.fate .gc = .done)

/-- Files that are there have records. -/
theorem mapM_recordOf {d : Digest B H} {files files₀ : Files B} {createdAt : ℤ} {stepId : String}
    {paths : List String} (h : ∀ path ∈ paths, (files path).isSome) :
  ∃ records : List (BackupRecord H), (paths.map (capture d files₀)).mapM
    (recordOf d files createdAt stepId) = some records ∧ records.length = paths.length
  := by
  induction paths with
  | nil => exact ⟨[], rfl, rfl⟩
  | cons path paths ih =>
  obtain ⟨records, hrecs, hlen⟩ := ih fun p hp => h p (mem_cons_of_mem path hp)
  obtain ⟨bytes, hbytes⟩ := Option.isSome_iff_exists.mp (h path mem_cons_self)
  have hpath : (capture d files₀ path).path = path := by
    rw [capture]
    split
    · rfl
    · rfl
  obtain ⟨r, hr⟩ : ∃ r, recordOf d files createdAt stepId (capture d files₀ path) = some r := by
    rw [recordOf, hpath, hbytes]
    exact ⟨_, rfl⟩
  use r :: records
  rw [map_cons, mapM_cons, hr, hrecs]
  use rfl
  rw [length_cons, length_cons, hlen]

/-- The records of the files are made. -/
theorem makeRecords_wp {createdAt : ℤ} {stepId : String}
    (h : Writing env .backupStore updates s updates w) :
  wp (makeRecords env f createdAt stepId ((pathsOf updates).map (capture env.digest s.files)))
    (fun records t => Writing env .backupStore updates s updates t ∧
      records.length = (pathsOf updates).length ∧
        ∀ path ∈ pathsOf updates, f.fate (.digest path) = .done)
    (fun _ t => Early env f .backupStore updates s t) w
  := by
  have hpath : ∀ path, (capture env.digest s.files path).path = path := by
    intro path
    rw [capture]
    split
    · rfl
    · rfl
  have hdigests : wp (((pathsOf updates).map (capture env.digest s.files)).forM fun c =>
        attempt (f.fate (.digest c.path)) id)
      (fun _ t => Writing env .backupStore updates s updates t ∧
        ∀ c ∈ (pathsOf updates).map (capture env.digest s.files), f.fate (.digest c.path) = .done)
      (fun _ t => Early env f .backupStore updates s t) w := by
    apply wp_forM_all _ h
    intro c hc t ht
    apply wp_attempt_of ht
    intro hfate _
    use ht.restorable fun _ hv => hv
    rintro ⟨-, hreach⟩
    obtain ⟨path, hmem, rfl⟩ := mem_map.mp hc
    rw [hpath] at hfate
    exact hfate (hreach.paths path hmem).2.2
  rw [makeRecords, wp_bind]
  apply wp_mono hdigests
  · rintro - t ⟨ht, hall⟩
    have hthere : ∀ path ∈ pathsOf updates, (t.store.files path).isSome := by
      intro path hmem
      have hupdated : ∃ u ∈ updates, u.path = path ∧
          updated updates s.files path = some u.content :=
        exists_of_mem (mem_pathsOf.mp hmem)
      obtain ⟨u, -, -, hval⟩ := hupdated
      rw [ht.2, hval]
      rfl
    have hmade : ∃ records : List (BackupRecord H),
        ((pathsOf updates).map (capture env.digest s.files)).mapM
            (recordOf env.digest t.store.files createdAt stepId) = some records ∧
          records.length = (pathsOf updates).length :=
      mapM_recordOf hthere
    obtain ⟨records, hrecs, hlen⟩ := hmade
    rw [wp_bind, wp_get, hrecs]
    refine ⟨ht, hlen, ?_⟩
    intro path hmem
    have hdone := hall _ (mem_map_of_mem hmem)
    rw [hpath] at hdone
    exact hdone
  · intro _ t ht
    exact ht

/-- The manifest with the new records is put in place. -/
theorem putRecords_wp {records : List (BackupRecord H)}
    (h : Writing env .backupStore updates s updates w)
    (hlen : records.length = (pathsOf updates).length)
    (hreach : f.fate .lockManifest = .done ∧ f.fate .writeManifest = .done ∧
      f.fate .replaceManifest = .done → Reaches env f updates s.files) :
  wp (putRecords f records)
    (fun _ t => t = { w with store := appendRecords records w.store } ∧
      Reaches env f updates s.files ∧ f.fate .closeManifest = .done)
    (fun e t => Early env f .backupStore updates s t ∨ Overdue env f .backupStore updates s e t) w
  := by
  have hrestorable : Restorable s w := h.restorable fun _ hv => hv
  have hearly {operation : Operation} (hoperation : Reaches env f updates s.files →
      f.fate operation = .done) (hfate : f.fate operation ≠ .done) :
      Early env f .backupStore updates s w := by
    use hrestorable
    rintro ⟨-, hr⟩
    exact hfate (hoperation hr)
  rw [putRecords, wp_bind, wp_attempt]
  cases hlock : f.fate .lockManifest with
  | fails | crashes => exact inl (hearly (fun hr => hr.manifest.1) (by rw [hlock]; decide))
  | done =>
  rw [wp_ensuring, wp_bind, wp_attempt]
  cases hwrite : f.fate .writeManifest with
  | crashes => exact inl (hearly (fun hr => hr.manifest.2.1) (by rw [hwrite]; decide))
  | fails =>
    have hpre := hearly (fun hr => hr.manifest.2.1) (by rw [hwrite]; decide)
    exact wp_attempt_id (E := fun e t => Early env f .backupStore updates s t ∨
      Overdue env f .backupStore updates s e t) (inl hpre) fun _ => inl hpre
  | done =>
  rw [wp_attempt]
  cases hrepl : f.fate .replaceManifest with
  | crashes => exact inl (hearly (fun hr => hr.manifest.2.2) (by rw [hrepl]; decide))
  | fails =>
    have hpre := hearly (fun hr => hr.manifest.2.2) (by rw [hrepl]; decide)
    exact wp_attempt_id (E := fun e t => Early env f .backupStore updates s t ∨
      Overdue env f .backupStore updates s e t) (inl hpre) fun _ => inl hpre
  | done =>
  have hall := hreach ⟨hlock, hwrite, hrepl⟩
  set t : World B H := { w with store := appendRecords records w.store } with ht
  have hdue : ∀ e, f.fate .closeManifest = fateOf e → Overdue env f .backupStore updates s e t := by
    intro e hclose
    refine ⟨rfl, hall, inl ⟨hclose, ?_, records, hlen, ?_⟩⟩
    · have hfiles := hrestorable.1
      rw [rollback, if_neg (by rw [h.1.settled]; decide), h.1.transaction.1] at hfiles
      rw [rollback, if_neg (by rw [ht, h.1.settled]; decide), ht, h.1.transaction.1]
      exact hfiles
    · rw [rollback, if_neg (by rw [ht, h.1.settled]; decide), ht, h.1.transaction.1]
      change some (records ++ w.store.manifest.getD []) = _
      rw [h.1.manifest]
  change wp (attempt _ id) _ _ t
  rw [wp_attempt]
  cases hclose : f.fate .closeManifest with
  | done => exact ⟨rfl, hall, rfl⟩
  | fails => exact inr (hdue .thrown hclose)
  | crashes => exact inr (hdue .crashed hclose)

/-- The transaction of the backups is committed. -/
theorem commit_backupStore_wp {createdAt : ℤ} {stepId : String}
    (h : Writing env .backupStore updates s updates w)
    (hreach : (∀ path ∈ pathsOf updates, f.fate (.digest path) = .done) →
      f.fate .lockManifest = .done ∧ f.fate .writeManifest = .done ∧
        f.fate .replaceManifest = .done → Reaches env f updates s.files) :
  wp (commit env f createdAt stepId) (fun _ t => Ended f .backupStore updates s t)
    (fun e t => Early env f .backupStore updates s t ∨ Overdue env f .backupStore updates s e t) w
  := by
  have htx := h.1.transaction.1
  rw [commit, wp_bind, wp_get, htx]
  simp only [h.1.settled]
  change wp (makeRecords env f createdAt stepId _ >>= _) _ _ w
  rw [wp_bind]
  apply wp_mono (makeRecords_wp h)
  · rintro records t ⟨ht, hlen, hdigests⟩
    rw [wp_bind]
    apply wp_mono (putRecords_wp ht hlen (hreach hdigests))
    · rintro - t' ⟨rfl, hall, hclose⟩
      have hman : Recorded updates s (appendRecords records t.store).manifest := by
        use records, hlen
        rw [← ht.1.manifest]
        rfl
      rw [wp_bind, wp_modify, gc, wp_bind, wp_modify, wp_attempt]
      have hdue : ∀ e, f.fate .gc = fateOf e → ∀ t' : World B H, t'.settled →
          t'.store.files = t.store.files → (if f.collects then t'.store.manifest = none
              else Recorded updates s t'.store.manifest) →
              Overdue env f .backupStore updates s e t' := by
        intro e hgc t' hset hfiles hm
        refine ⟨rfl, hall, inr ⟨hclose, hgc, hset, ?_, hm⟩⟩
        rw [hfiles, ht.2]
      cases hcollects : f.collects with
      | true =>
        rw [hcollects] at hdue
        cases hgc : f.fate .gc with
        | done => exact ⟨ht.2, fun _ => ⟨hclose, hgc⟩⟩
        | fails => exact inr (hdue .thrown hgc _ rfl rfl rfl)
        | crashes => exact inr (hdue .crashed hgc _ rfl rfl rfl)
      | false =>
      rw [hcollects] at hdue
      cases hgc : f.fate .gc with
      | done => exact ⟨ht.2, fun _ => ⟨hclose, hgc⟩⟩
      | fails => exact inr (hdue .thrown hgc _ rfl rfl hman)
      | crashes => exact inr (hdue .crashed hgc _ rfl rfl hman)
    · intro e t' ht'
      exact ht'
  · intro e t ht
    exact inl ht

/-- A mutation comes to its end, or fails before the manifest with the new records is in place, or
after. -/
theorem attemptMutation_wp
    (env : Externals B H K) (f : Faults) (port : Port) (createdAt : ℤ) (stepId : String)
    (updates : List (Update B K))
    (hnamed : ∀ name bytes, s.objects name = some bytes → env.digest.sourceHash bytes = name) :
  wp (attemptMutation env f port createdAt stepId updates) (fun _ t => Ended f port updates s t)
    (fun e t => Early env f port updates s t ∨ Overdue env f port updates s e t) (World.start s)
  := by
  have hstart : Waiting s (World.start s) := ⟨⟨rfl, rfl, rfl, rfl⟩, rfl⟩
  have hearly : ∀ (e : Stop) (t : World B H), Early env f port updates s t →
      Early env f port updates s t ∨ Overdue env f port updates s e t := fun _ _ ht => inl ht
  rw [attemptMutation, wp_bind]
  apply wp_mono (acquire_wp hstart) _ hearly
  rintro - w₁ ⟨h₁, hlocks⟩
  rw [wp_bind]
  apply wp_mono (guard_wp h₁) _ hearly
  rintro - w₂ ⟨h₂, hguards⟩
  rw [wp_bind]
  apply wp_mono (prepare_wp hnamed h₂) _ hearly
  rintro - w₃ ⟨h₃, hbackups⟩
  rw [wp_bind]
  apply wp_mono (checkExpected_wp h₃) _ hearly
  rintro - w₄ ⟨h₄, hexp⟩
  rw [wp_bind]
  apply wp_mono (atomicWrite_wp h₄) _ hearly
  rintro - w₅ ⟨h₅, hwrote⟩
  rw [wp_bind]
  apply wp_mono (verify_wp h₅) _ hearly
  rintro - w₆ ⟨h₆, hverified⟩
  cases port with
  | backupStore =>
    apply commit_backupStore_wp h₆
    intro hdigests hman
    exact ⟨fun path hpath => ⟨hlocks path hpath, hbackups path hpath, hdigests path hpath⟩,
      hguards, hexp, hwrote, hverified, hman⟩
  | ephemeral =>
    rw [commit, wp_bind, wp_get, show w₆.transaction = _ from h₆.1.transaction]
    exact ⟨h₆.2, nofun⟩

end Steps

/-! ### The theorem -/

/-- After all updates, every file has the content of its last one. -/
theorem done_of_updated {w : World B H}
    (h : w.store.files = updated updates s.files) (hlocked : w.locked = []) :
  Done updates s w
  where
    updated := by
      rintro older u newer rfl hlast
      rw [h]
      exact assign_of_last hlast
    others := by
      intro path hpath
      rw [h]
      exact assign_of_notMem hpath
    locked := hlocked

/-- No records are added exactly where there are no updates. -/
theorem Recorded.suffix_iff
    {manifest : Option (List (BackupRecord H))} (h : Recorded updates s manifest) :
  manifest.getD [] <:+ s.manifest.getD [] ↔ updates = []
  := by
  obtain ⟨records, hlen, rfl⟩ := h
  have hempty : updates = [] ↔ records = [] := by
    rw [← length_eq_zero_iff (l := records), hlen, length_eq_zero_iff]
    constructor
    · rintro rfl
      simp [pathsOf, Ecma.toSorted]
    intro hpaths
    cases updates with
    | nil => rfl
    | cons u us =>
      have hu : u.path ∈ pathsOf (u :: us) := mem_pathsOf.mpr (by simp)
      rw [hpaths] at hu
      cases hu
  rw [hempty, Option.getD_some]
  constructor
  · intro hsuffix
    have hle := hsuffix.length_le
    rw [length_append] at hle
    exact length_eq_zero_iff.mp (by omega)
  · rintro rfl
    exact suffix_refl _

/-- What comes too late is undone exactly where there is nothing to undo. -/
theorem Overdue.undone_iff {env : Externals B H K} {f : Faults} {port : Port} {w : World B H}
    (h : Overdue env f port updates s .thrown w) :
  Undone s { rollback w with locked := [] } ↔ ¬Late env f port updates s.files
  := by
  obtain ⟨hport, hreach, ⟨hclose, hfiles, hrec⟩ | ⟨hclose, hgc, hset, hfiles, hm⟩⟩ := h
  · have hlate : Late env f port updates s.files ↔ updates ≠ [] := by
      constructor
      · exact fun hl => hl.2.1
      · exact fun hne => ⟨hport, hne, hreach, inl hclose⟩
    rw [hlate, not_not, ← hrec.suffix_iff]
    constructor
    · exact fun hu => hu.records
    · exact fun hsuffix => ⟨hfiles, hsuffix, rfl⟩
  have hempty : updates = [] → updated updates s.files = s.files := by
    rintro rfl
    rfl
  have hlate : Late env f port updates s.files ↔
      updates ≠ [] ∧ (f.collects → updated updates s.files ≠ s.files) := by
    constructor
    · rintro ⟨-, hne, -, hfails | ⟨-, -, hchg⟩⟩
      · rw [hclose] at hfails
        cases hfails
      · exact ⟨hne, hchg⟩
    · rintro ⟨hne, hchg⟩
      exact ⟨hport, hne, hreach, inr ⟨hclose, hgc, hchg⟩⟩
  rw [hlate, rollback, if_pos hset]
  cases hcollects : f.collects with
  | true =>
    rw [hcollects, if_pos rfl] at hm
    constructor
    · rintro hu ⟨-, hchg⟩
      exact hchg rfl (hfiles.symm.trans hu.files)
    intro hnot
    have heq : updated updates s.files = s.files := by
      by_contra hne
      exact hnot ⟨fun hnil => hne (hempty hnil), fun _ => hne⟩
    refine ⟨hfiles.trans heq, ?_, rfl⟩
    rw [hm]
    exact nil_suffix
  | false =>
  rw [hcollects, if_neg (by decide)] at hm
  constructor
  · rintro hu ⟨hne, -⟩
    exact hne (hm.suffix_iff.mp hu.records)
  intro hnot
  have hnil : updates = [] := by
    by_contra hne
    exact hnot ⟨hne, nofun⟩
  exact ⟨hfiles.trans (hempty hnil), hm.suffix_iff.mpr hnil, rfl⟩

/-- All updates are done, or the files and the records are as before, exactly when no step throws
after the manifest with the new records has been put in place. -/
theorem allOrNothing_iff
    (env : Externals B H K) (f : Faults) (port : Port) (createdAt : ℤ) (stepId : String)
    (updates : List (Update B K)) (s : State B H)
    (hnamed : ∀ name bytes, s.objects name = some bytes → env.digest.sourceHash bytes = name) :
  AllOrNothing updates s (mutateFiles env f port createdAt stepId updates) ↔
    ¬Late env f port updates s.files
  := by
  have hspec := attemptMutation_wp env f port createdAt stepId updates hnamed
  rw [AllOrNothing, mutateFiles, wp_ensuring, wp_catching]
  unfold wp at hspec ⊢
  cases hx : attemptMutation env f port createdAt stepId updates (World.start s) with
  | ok a t =>
    rw [hx] at hspec
    obtain ⟨hfiles, hfates⟩ := hspec
    have hdone : Done updates s { t with locked := [] } := done_of_updated hfiles rfl
    have hnot : ¬Late env f port updates s.files := by
      rintro ⟨hport, -, -, hclose | ⟨-, hgc, -⟩⟩
      · rw [(hfates hport).1] at hclose
        cases hclose
      · rw [(hfates hport).2] at hgc
        cases hgc
    exact iff_of_true hdone hnot
  | error e t =>
  rw [hx] at hspec
  cases e with
  | thrown =>
    change Undone s { rollback t with locked := [] } ↔ _
    rcases hspec with ⟨⟨hfiles, hman⟩, hearly⟩ | hdue
    · have hundone : Undone s { rollback t with locked := [] } := by
        refine ⟨hfiles, ?_, rfl⟩
        simp only [hman, suffix_refl]
      exact iff_of_true hundone fun hlate => hearly ⟨hlate.1, hlate.2.2.1⟩
    · exact hdue.undone_iff
  | crashed =>
  change True ↔ _
  rcases hspec with ⟨-, hearly⟩ | ⟨-, -, ⟨hclose, -⟩ | ⟨hclose, hgc, -⟩⟩
  · exact iff_of_true True.intro fun hlate => hearly ⟨hlate.1, hlate.2.2.1⟩
  · apply iff_of_true True.intro
    rintro ⟨-, -, -, hfails | ⟨hdone, -⟩⟩
    · rw [hclose] at hfails
      cases hfails
    · rw [hclose] at hdone
      cases hdone
  apply iff_of_true True.intro
  rintro ⟨-, -, -, hfails | ⟨-, hfails, -⟩⟩
  · rw [hclose] at hfails
    cases hfails
  · rw [hgc] at hfails
    cases hfails

/-- Digests that tell the numbers apart which stand for files. -/
def numbered : Externals ℕ ℕ ℕ where
  digest := { sourceHash := id, injective := Function.injective_id }
  contentHash := id

/-- A session without backups, where every file holds `0`. -/
def noBackups : State ℕ ℕ where
  files := fun _ => some 0
  objects := fun _ => none
  manifest := none

/-- One of the steps fails. -/
def failing (operation : Operation) : Faults where
  fate := fun o => if o = operation then .fails else .done
  collects := false

/-- Where the collection of old backups fails, the mutation throws and the files are changed. -/
theorem not_allOrNothing :
  ¬ ∀ (f : Faults) (updates : List (Update ℕ ℕ)),
    AllOrNothing updates noBackups (mutateFiles numbered f .backupStore 1 "1" updates)
  := by
  intro h
  have hrun : (match mutateFiles numbered (failing .gc) .backupStore 1 "1"
      [{ path := "a", content := 1, expect := none }] (World.start noBackups) with
    | .error .thrown w => w.store.files "a"
    | _ => none) = some 1 := by
    decide +kernel
  have hundone := h (failing .gc) [{ path := "a", content := 1, expect := none }]
  unfold AllOrNothing wp at hundone
  cases hx : mutateFiles numbered (failing .gc) .backupStore 1 "1"
      [{ path := "a", content := 1, expect := none }] (World.start noBackups) with
  | ok a w =>
    rw [hx] at hrun
    cases hrun
  | error e w =>
  rw [hx] at hrun hundone
  cases e with
  | crashed => cases hrun
  | thrown =>
  have hfile : w.store.files "a" = some 0 := by
    rw [hundone.files]
    rfl
  rw [show w.store.files "a" = some 1 from hrun] at hfile
  cases hfile

theorem allOrNothing_iff_failing :
  AllOrNothing [{ path := "a", content := 1, expect := some 0 },
      { path := "b", content := 2, expect := none }] noBackups
    (mutateFiles numbered (failing (.replace 1)) .backupStore 1 "1"
      [{ path := "a", content := 1, expect := some 0 },
        { path := "b", content := 2, expect := none }])
  := by
  rw [allOrNothing_iff numbered (failing (.replace 1)) .backupStore 1 "1" _ noBackups nofun]
  rintro ⟨-, -, -, hclose | ⟨-, hgc, -⟩⟩
  · cases hclose
  · cases hgc

end Tools
