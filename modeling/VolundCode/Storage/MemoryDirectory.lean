import VolundCode.Storage.LockedStore
import VolundCode.Storage.MarkdownMemory

/-!
# Writers of one memory directory

A transaction on the directory takes the lock, loads the files, and brings them up to date with what
its operation makes of the records. It writes one file after the other, each in one step, and may
stop after any of them, so the files are those that some of its writes have left. The writes of a
transaction that stops nowhere make of the files what `syncToDisk` makes of them
(`performs_syncWrites`), and what a transaction has left at a path is there until another writes to
that path (`reflected_of_inv`).
-/

namespace Storage.MemoryDirectory

open Markdown LockedStore List

/-! ### Writes -/

/-- What a call does to the directory: rename a file it has written to its place, remove a file, or
sync a directory. -/
inductive Write where
  | put (path : Path) (file : MemoryFile)
  | remove (path : Path)
  | syncDirectory (directory : String)

/-- Where a write is to. -/
def Write.path? : Write → Option Path
  | .put path _ => some path
  | .remove path => some path
  | .syncDirectory _ => none

def perform : Write → Disk → Disk
  | .put path file, disk => disk.insert path file
  | .remove path, disk => disk.erase path
  | .syncDirectory _, disk => disk

/-- The files after these have been written. -/
def performs (writes : List Write) (disk : Disk) : Disk :=
  writes.foldl (fun disk write => perform write disk) disk

@[simp]
theorem performs_append (ws ws' : List Write) (disk : Disk) :
  performs (ws ++ ws') disk = performs ws' (performs ws disk)
  := foldl_append

/-- What is at other paths is left as it is. -/
theorem lookup_performs {writes : List Write} {path : Path}
    (h : ∀ write ∈ writes, write.path? ≠ some path) (disk : Disk) :
  (performs writes disk).lookup path = disk.lookup path
  := by
  induction writes generalizing disk with
  | nil => rfl
  | cons write writes ih =>
  have hrest := ih (fun w hw => h w (mem_cons_of_mem _ hw)) (perform write disk)
  have hpath := h write mem_cons_self
  change (performs writes (perform write disk)).lookup path = _
  rw [hrest]
  cases write with
  | put other file =>
    apply AList.lookup_insert_ne
    intro heq
    rw [heq] at hpath
    contradiction
  | remove other =>
    apply AList.lookup_erase_ne
    intro heq
    rw [heq] at hpath
    contradiction
  | syncDirectory directory => rfl

/-! ### What a transaction writes -/

/-- What is to be written, which files are managed then, and the directories that are written to. -/
structure Planning where
  writes : List Write
  managed : Managed
  touched : List String

section Plans

variable (env : MemoryExternals) (yaml : Yaml) (layout : MarkdownMemoryLayout)
  (localeCompare : String → String → Ordering)

/-- The file of a record that is new or changed is written, and the file it had elsewhere is
removed. -/
def planRecord (clock : Path → ℤ) (p : Planning) (record : MemoryRecord) : Planning :=
  let managed := p.managed.lookup record.id
  if managed.any fun file => file.record = record then p
  else
    let path : Path :=
      { directory := layout.directoryFor record.scope, name := filenameFor p.managed record }
    let write := Write.put path { text := serializeRecord yaml record, mtimeMs := clock path }
    match managed.filter fun file => file.path ≠ path with
    | none =>
      { writes := p.writes ++ [write]
        managed := p.managed.insert record.id { path := path, record := record }
        touched := p.touched ++ [path.directory] }
    | some file =>
      { writes := p.writes ++ [write, .remove file.path]
        managed := p.managed.insert record.id { path := path, record := record }
        touched := p.touched ++ [file.path.directory, path.directory] }

/-- The file of a record that the set no longer has is removed. -/
def planAbsent (nextIds : List String) (p : Planning) (id : String) : Planning :=
  if id ∈ nextIds then p
  else
    match p.managed.lookup id with
    | none => p
    | some file =>
      { writes := p.writes ++ [.remove file.path]
        managed := p.managed.erase id
        touched := p.touched ++ [file.path.directory] }

/-- The index of a directory is written, unless it is the one of sessions. -/
def indexWrite (clock : Path → ℤ) (managed : Managed) (directory : String) : Option Write :=
  if directory = layout.sessionsDirectory then none
  else
    let path : Path := { directory := directory, name := indexFilename }
    some (.put path
      { text := (memoryIndexDocument localeCompare managed directory).toList
        mtimeMs := clock path })

/-- The files of the records are brought up to date, one record after the other. -/
def planRecords (clock : Path → ℤ) (records : List MemoryRecord) (p : Planning) : Planning :=
  records.foldl (planRecord yaml layout clock) p

/-- The files of all other records are removed. -/
def planAbsents (records : List MemoryRecord) (p : Planning) : Planning :=
  (p.managed.entries.map Sigma.fst).foldl (planAbsent (records.map MemoryRecord.id)) p

/-- What brings the files up to date with a set of records. -/
def syncWrites (clock : Path → ℤ) (records : List MemoryRecord) (managed : Managed) : List Write :=
  let p := planAbsents records
    (planRecords yaml layout clock records { writes := [], managed := managed, touched := [] })
  let directories := p.touched.eraseDups
  p.writes ++ directories.filterMap (indexWrite layout localeCompare clock p.managed) ++
    directories.map Write.syncDirectory

variable {env yaml layout localeCompare} {clock : Path → ℤ}

/-- A plan that has been carried out on a disk. -/
def Planning.on (p : Planning) (disk : Disk) : Syncing where
  disk := performs p.writes disk
  managed := p.managed
  touched := p.touched

theorem on_planRecord (p : Planning) (record : MemoryRecord) (disk : Disk) :
  (planRecord yaml layout clock p record).on disk = syncRecord yaml layout clock (p.on disk) record
  := by
  have hmgd : (p.on disk).managed = p.managed := rfl
  rw [planRecord, syncRecord, hmgd]
  simp only
  split_ifs
  · rfl
  cases Option.filter _ (AList.lookup record.id p.managed) with
  | none | some file =>
    simp only [Planning.on, performs_append]
    rfl

theorem on_planAbsent (nextIds : List String) (p : Planning) (id : String) (disk : Disk) :
  (planAbsent nextIds p id).on disk = syncAbsent nextIds (p.on disk) id
  := by
  have hmgd : (p.on disk).managed = p.managed := rfl
  rw [planAbsent, syncAbsent, hmgd]
  split_ifs
  · rfl
  cases AList.lookup id p.managed with
  | none => rfl
  | some file =>
    simp only [Planning.on, performs_append]
    rfl

/-- Steps of a plan that follow those of the repository one by one follow them all. -/
theorem on_foldl {α : Type} {plan : Planning → α → Planning} {sync : Syncing → α → Syncing}
    {disk : Disk} (as : List α) (h : ∀ p a, (plan p a).on disk = sync (p.on disk) a)
    (p : Planning) :
  (as.foldl plan p).on disk = as.foldl sync (p.on disk)
  := by
  induction as generalizing p with
  | nil => rfl
  | cons a as ih => rw [foldl_cons, foldl_cons, ih, h]

/-- The indexes are written one after the other. -/
theorem performs_indexWrites (managed : Managed) (directories : List String) (disk : Disk) :
  performs (directories.filterMap (indexWrite layout localeCompare clock managed)) disk =
    directories.foldl (writeIndex layout localeCompare clock managed) disk
  := by
  induction directories generalizing disk with
  | nil => rfl
  | cons directory directories ih =>
  rw [foldl_cons, ← ih, filterMap_cons]
  by_cases hsessions : directory = layout.sessionsDirectory
  · simp only [indexWrite, writeIndex, hsessions, if_true]
  · simp only [indexWrite, writeIndex, hsessions, if_false, performs, foldl_cons, perform]

theorem performs_syncDirectories (directories : List String) (disk : Disk) :
  performs (directories.map Write.syncDirectory) disk = disk
  := by
  induction directories with
  | nil => rfl
  | cons directory directories ih => apply ih

theorem on_planRecords (records : List MemoryRecord) (p : Planning) (disk : Disk) :
  (planRecords yaml layout clock records p).on disk =
    syncRecords yaml layout clock records (p.on disk)
  := by
  apply on_foldl
  intro p record
  apply on_planRecord

theorem on_planAbsents (records : List MemoryRecord) (p : Planning) (disk : Disk) :
  (planAbsents records p).on disk = syncAbsents records (p.on disk)
  := by
  apply on_foldl
  intro p id
  apply on_planAbsent

variable (yaml layout localeCompare clock) in
/-- Its writes bring the files up to date as the repository does. -/
theorem performs_syncWrites (records : List MemoryRecord) (memory : MarkdownMemory) :
  performs (syncWrites yaml layout localeCompare clock records memory.managed) memory.disk =
    (syncToDisk yaml layout localeCompare clock records memory).disk
  := by
  have hsynced := on_planAbsents records
    (planRecords yaml layout clock records
      { writes := [], managed := memory.managed, touched := [] })
    memory.disk
  have hstart : (Planning.mk [] memory.managed []).on memory.disk =
      { disk := memory.disk, managed := memory.managed, touched := [] } := rfl
  rw [on_planRecords, hstart] at hsynced
  rw [syncWrites, performs_append, performs_append, performs_syncDirectories, performs_indexWrites]
  change _ = writeIndexes layout localeCompare clock (syncAbsents records _)
  rw [writeIndexes, ← hsynced]
  rfl

end Plans

/-! ### Calls -/

/-- What a call does with the records: load them, or bring the files up to date with what its
operation makes of them, unless that throws. The files are listed in any order, and written at any
times. -/
inductive Operation where
  | load
  | transaction (listing : Disk → List Path) (perm : ∀ disk, (listing disk).Perm disk.keys)
      (clock : Path → ℤ) (operation : List MemoryRecord → Option (List MemoryRecord))

section Calls

variable (env : MemoryExternals) (yaml : Yaml) (layout : MarkdownMemoryLayout)
  (localeCompare : String → String → Ordering)

/-- What a call writes, given what is on the disk. -/
def planOf : Operation → Disk → Option (List Write)
  | .load, _ => some []
  | .transaction listing _ clock operation, disk =>
    let loaded := loadUnlocked env yaml layout disk (listing disk)
    (operation loaded.records).map fun records =>
      syncWrites yaml layout localeCompare clock records loaded.managed

/-- The directory as a store behind a lock file. A write that fails is not undone. -/
def store : LockedStore.Store where
  Content := Disk
  Op := Operation
  Write := Write
  perform := perform
  plan := planOf env yaml layout localeCompare
  recover _ := []
  grace := true

/-- What a transaction has left at a path is there, unless a call has written to the path that has
loaded after it; and it has loaded what the calls before it have written. -/
def Reflected (W : World (store env yaml layout localeCompare)) (content₀ : Disk)
    (s : State (store env yaml layout localeCompare)) (call : ℕ) : Prop :=
  match (W.op call : Operation) with
  | .load => True
  | .transaction listing _ clock operation =>
    ∃ past writes rest, s.sections = past ++ Section.mk call writes :: rest ∧
      let disk := performs (past.flatMap Section.writes) content₀
      let loaded := loadUnlocked env yaml layout disk (listing disk)
      ∃ records, operation loaded.records = some records ∧
        ∀ path : Path, (∀ sec ∈ rest, ∀ write ∈ (sec.writes : List Write),
            write.path? ≠ some path) →
          AList.lookup path (s.content : Disk) = (syncToDisk yaml layout localeCompare clock records
              { disk := disk, managed := loaded.managed }).disk.lookup path

variable {env yaml layout localeCompare} {W : World (store env yaml layout localeCompare)}
  {content₀ : Disk} {s : State (store env yaml layout localeCompare)}

/-- Where the invariant holds what a transaction has left that has returned is there. -/
theorem reflected_of_inv (h : Inv W content₀ s) {call : ℕ} (hcall : call ∈ s.returned) :
  Reflected env yaml layout localeCompare W content₀ s call
  := by
  obtain ⟨past, writes, rest, loaded, hsecs, hload, hplan, hcont⟩ := h.content_eq hcall
  have hload : loaded = performs (past.flatMap Section.writes) content₀ := hload
  have hcont : s.content = performs (rest.flatMap Section.writes) (performs writes loaded) := hcont
  rw [Reflected]
  cases hop : (W.op call : Operation) with
  | load => exact True.intro
  | transaction listing perm clock operation =>
  rw [hop] at hplan
  obtain ⟨records, hrecs, hwrites⟩ := Option.map_eq_some_iff.mp hplan
  use past, writes, rest, hsecs
  rw [← hload]
  use records, hrecs
  intro path hpath
  have hrest : ∀ write ∈ (rest.flatMap Section.writes : List Write), write.path? ≠ some path := by
    intro write hwrite
    obtain ⟨sec, hsec, hmem⟩ := mem_flatMap.mp hwrite
    apply hpath sec hsec write hmem
  have hsynced := performs_syncWrites yaml layout localeCompare clock records
    { disk := loaded
      managed := (loadUnlocked env yaml layout loaded (listing loaded)).managed }
  rw [hwrites] at hsynced
  rw [hcont, ← hsynced]
  apply lookup_performs hrest

end Calls

end Storage.MemoryDirectory
