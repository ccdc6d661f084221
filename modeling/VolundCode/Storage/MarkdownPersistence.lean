import VolundCode.Lib.Run
import VolundCode.Storage.MarkdownMemory

/-!
# Memory records persist

After a save every load returns exactly the records that were saved, in every run from an empty
disk whose saves are of records that are separate (`loads_saved`): no id has a colon, no two
records have one place, and none has a place that a later record of the same save leaves or that
is only left by a removal. Where the records of a save are not separate, some load loses one of
them. Two ids with the same first twelve characters are enough, as the name of a file has no more
of an id than that (`not_loads_saved`).
-/

namespace Storage.Markdown

open Run List

/-! ### Names of files of records -/

variable {record : MemoryRecord}

theorem isRecordName_canonicalFilename
    (h : record.createdAt.toList.head? ≠ some '.') :
  isRecordName (canonicalFilename record)
  := by
  have hname : (canonicalFilename record).toList =
      Ecma.takeUnits 10 record.createdAt.toList ++ '-' :: ((slugFor record.content).toList ++
        '-' :: ((shortId record.id).toList ++ ['.', 'm', 'd'])) := by
    simp [canonicalFilename, Ecma.sliceTo]
  have hhead : (canonicalFilename record).toList.head? ≠ some '.' := by
    rw [hname]
    cases hcs : record.createdAt.toList with
    | nil => simp [Ecma.takeUnits]
    | cons c cs =>
    rw [hcs] at h
    rw [Ecma.takeUnits]
    split_ifs
    · simpa using h
    · simp
    · simpa using h
    · simp
  have hends : Ecma.endsWith (canonicalFilename record) ".md" := by
    rw [Ecma.endsWith, isSuffixOf_iff_suffix, hname]
    refine ⟨Ecma.takeUnits 10 record.createdAt.toList ++ '-' ::
      ((slugFor record.content).toList ++ '-' :: (shortId record.id).toList), ?_⟩
    simp
  have hstarts : Ecma.startsWith (canonicalFilename record) "." = false := by
    rw [Ecma.startsWith, Bool.eq_false_iff]
    intro hpre
    obtain ⟨t, ht⟩ := isPrefixOf_iff_prefix.mp hpre
    apply hhead
    rw [← ht]
    rfl
  have hindex : canonicalFilename record ≠ indexFilename := by
    intro heq
    have hmem : '-' ∈ (canonicalFilename record).toList := by
      rw [hname]
      simp
    rw [heq] at hmem
    revert hmem
    decide +kernel
  simp [isRecordName, hends, hstarts, hindex]

variable {env : MemoryExternals} {yaml : Yaml} {layout : MarkdownMemoryLayout}

theorem reads_directoryFor {scope : MemoryRecordScope} (h : validateScope scope = .ok ()) :
  layout.reads (layout.directoryFor scope)
  := by
  have hfallback : ∀ p, validIdentifier p → layout.reads (layout.fallbackDirectory p) := by
    intro p hp
    have hid := isIdentifier_of_validIdentifier hp
    have hslash : '/' ∉ p.toList := by
      intro hmem
      rcases mem_of_isIdentifier hid hmem with h | h
      all_goals cases h
    have hdrop : (layout.fallbackDirectory p).toList.drop
        (layout.projectsDirectory ++ "/").length = p.toList := by
      rw [MarkdownMemoryLayout.fallbackDirectory, String.toList_append, ← String.length_toList,
        drop_left]
    have hstarts : Ecma.startsWith (layout.fallbackDirectory p)
        (layout.projectsDirectory ++ "/") := by
      rw [Ecma.startsWith, isPrefixOf_iff_prefix]
      exact ⟨p.toList, by simp [MarkdownMemoryLayout.fallbackDirectory]⟩
    simp only [MarkdownMemoryLayout.reads, hstarts, hdrop]
    simp [ne_nil_of_isIdentifier hid, hslash]
  cases scope with
  | workspace w | session w p s =>
    simp [MarkdownMemoryLayout.reads, MarkdownMemoryLayout.directoryFor]
  | project w p =>
  simp only [validateScope] at h
  split_ifs at h with hw hp
  simp only [MarkdownMemoryLayout.directoryFor]
  split
  · rename_i id directory hid hcur
    split_ifs
    · simp [MarkdownMemoryLayout.reads, hcur]
    · apply hfallback p hp
  · apply hfallback p hp

/-! ### Reading files -/

/-- What a load has read of the paths `seen`: files of records, and one for each id. -/
structure Reads (env : MemoryExternals) (yaml : Yaml) (layout : MarkdownMemoryLayout) (disk : Disk)
    (seen : List Path) (loaded : Loaded) : Prop where
  sound : ∀ id l, loaded.byId.lookup id = some l → ∃ path ∈ seen,
    layout.isRecordPath path ∧ readMemoryFile env yaml disk path = some l ∧ l.file.record.id = id
  complete : ∀ path ∈ seen, layout.isRecordPath path → ∀ l,
    readMemoryFile env yaml disk path = some l → (loaded.byId.lookup l.file.record.id).isSome
  issues : ∀ path ∈ loaded.issues, path ∈ seen ∧ layout.isRecordPath path ∧
    readMemoryFile env yaml disk path = none

variable {disk : Disk} {path : Path}

/-- A path that is no file of a record, or the file of one that has been read, changes nothing. -/
theorem Reads.skip {seen : List Path} {loaded : Loaded} (h : Reads env yaml layout disk seen loaded)
    (hpath : layout.isRecordPath path → ∀ l, readMemoryFile env yaml disk path = some l →
      (loaded.byId.lookup l.file.record.id).isSome) :
  Reads env yaml layout disk (seen ++ [path]) loaded
  := by
  constructor
  · intro id l hl
    obtain ⟨q, hq, hrest⟩ := h.sound id l hl
    exact ⟨q, mem_append_left _ hq, hrest⟩
  · intro q hq hrec l hl
    rcases mem_append.mp hq with hq | hq
    · apply h.complete q hq hrec l hl
    · obtain rfl := mem_singleton.mp hq
      apply hpath hrec l hl
  · intro q hq
    obtain ⟨hseen, hrest⟩ := h.issues q hq
    exact ⟨mem_append_left _ hseen, hrest⟩

/-- A file that replaces no other, or an older one, is the one of its id from now on. -/
theorem Reads.insert {seen : List Path} {loaded : Loaded}
    {parsed : LoadedFile} (h : Reads env yaml layout disk seen loaded)
    (hpath : layout.isRecordPath path) (hread : readMemoryFile env yaml disk path = some parsed) :
  Reads env yaml layout disk (seen ++ [path])
    { loaded with byId := loaded.byId.insert parsed.file.record.id parsed }
  := by
  constructor
  · intro id l hl
    by_cases hid : id = parsed.file.record.id
    · rw [hid, AList.lookup_insert] at hl
      cases hl
      exact ⟨path, by simp, hpath, hread, hid.symm⟩
    · rw [AList.lookup_insert_ne hid] at hl
      obtain ⟨q, hq, hrest⟩ := h.sound id l hl
      exact ⟨q, mem_append_left _ hq, hrest⟩
  · intro q hq hrec l hl
    by_cases hid : l.file.record.id = parsed.file.record.id
    · rw [hid, AList.lookup_insert]
      rfl
    rw [AList.lookup_insert_ne hid]
    rcases mem_append.mp hq with hq | hq
    · apply h.complete q hq hrec l hl
    obtain rfl := mem_singleton.mp hq
    rw [hread] at hl
    cases hl
    apply absurd rfl hid
  · intro q hq
    obtain ⟨hseen, hrest⟩ := h.issues q hq
    exact ⟨mem_append_left _ hseen, hrest⟩

/-- One more file is read. -/
theorem reads_loadEntry {seen : List Path} {loaded : Loaded}
    (h : Reads env yaml layout disk seen loaded) :
  Reads env yaml layout disk (seen ++ [path]) (loadEntry env yaml layout disk loaded path)
  := by
  unfold loadEntry
  split_ifs with hpath
  · apply h.skip
    intro hrec
    rw [hrec] at hpath
    cases hpath
  replace hpath : layout.isRecordPath path := by simpa using hpath
  split
  · rename_i hread
    have hskip : Reads env yaml layout disk (seen ++ [path]) loaded :=
      h.skip fun _ l hl => by simp [hread] at hl
    refine ⟨hskip.sound, hskip.complete, ?_⟩
    intro q hq
    rcases mem_append.mp hq with hq | hq
    · apply hskip.issues q hq
    · obtain rfl := mem_singleton.mp hq
      exact ⟨by simp, hpath, hread⟩
  rename_i parsed hread
  split
  · apply h.insert hpath hread
  rename_i existing hex
  split_ifs
  · apply h.insert hpath hread
  apply h.skip
  intro _ l hl
  rw [hread] at hl
  cases hl
  rw [hex]
  rfl

variable (env yaml layout) in
/-- All files that are listed are read. -/
theorem reads_loadUnlocked (disk : Disk) (listing : List Path) :
  Reads env yaml layout disk listing (loadUnlocked env yaml layout disk listing)
  := by
  have hfold : ∀ (listing seen : List Path) (loaded : Loaded),
      Reads env yaml layout disk seen loaded →
      Reads env yaml layout disk (seen ++ listing)
        (listing.foldl (loadEntry env yaml layout disk) loaded) := by
    intro listing
    induction listing with
    | nil =>
      intro seen loaded h
      rw [append_nil]
      apply h
    | cons path listing ih =>
      intro seen loaded h
      rw [append_cons]
      apply ih _ _ (reads_loadEntry h)
  apply hfold listing [] { byId := ∅, issues := [] }
  exact ⟨fun id l hl => by simp at hl, fun path hpath => by simp at hpath,
    fun path hpath => by simp at hpath⟩

/-! ### Saving one record -/

variable (layout) in
/-- Where the file of a record is once the record is saved: where it was if the record has not
changed. -/
def placeOf (managed : Managed) (record : MemoryRecord) : Path :=
  match managed.lookup record.id with
  | some file =>
    if file.record = record then file.path
    else { directory := layout.directoryFor record.scope, name := file.path.name }
  | none =>
    { directory := layout.directoryFor record.scope, name := canonicalFilename record }

/-- Where the file of a record is. -/
def stored (managed : Managed) (id : String) : Option Path :=
  (managed.lookup id).map ManagedFile.path

variable {clock : Path → ℤ}

variable (yaml layout clock) in
/-- A record that has not changed is passed over. Any other is written to its place, and its file
is removed from where it was before. -/
theorem syncRecord_cases (s : Syncing) (record : MemoryRecord) :
  (∃ file, s.managed.lookup record.id = some file ∧ file.record = record ∧
      syncRecord yaml layout clock s record = s) ∨
    ((syncRecord yaml layout clock s record).managed = s.managed.insert record.id
        { path := placeOf layout s.managed record, record := record } ∧
      ∀ path, (syncRecord yaml layout clock s record).disk.lookup path =
        if path = placeOf layout s.managed record then
          some { text := serializeRecord yaml record, mtimeMs := clock path }
        else if stored s.managed record.id = some path then none
        else s.disk.lookup path)
  := by
  cases hlook : s.managed.lookup record.id with
  | none =>
    right
    simp only [syncRecord, filenameFor, placeOf, stored, hlook]
    refine ⟨rfl, fun path => ?_⟩
    simp only [Option.any_none, Option.filter_none, Option.map_none]
    by_cases hpath : path =
        { directory := layout.directoryFor record.scope, name := canonicalFilename record }
    · subst hpath
      simp
    · simp [AList.lookup_insert_ne hpath, hpath]
  | some file =>
  by_cases hsame : file.record = record
  · left
    use file, rfl, hsame
    simp [syncRecord, hlook, hsame]
  right
  have hplace : placeOf layout s.managed record =
      { directory := layout.directoryFor record.scope, name := file.path.name } := by
    simp only [placeOf, hlook, hsame, if_false]
  have hstor : stored s.managed record.id = some file.path := by
    simp only [stored, hlook, Option.map_some]
  rw [hplace, hstor]
  generalize hpath : Path.mk (layout.directoryFor record.scope) file.path.name = place
  simp only [syncRecord, filenameFor, hlook, hpath, Option.any_some, decide_eq_true_eq,
    hsame, if_false]
  by_cases hmoved : file.path = place
  · simp only [Option.filter, hmoved, ne_eq, not_true_eq_false, decide_false,
      Bool.false_eq_true, if_false, true_and]
    intro path
    by_cases hp : path = place
    · subst hp
      simp
    · simp [AList.lookup_insert_ne hp, hp, Ne.symm hp]
  simp only [Option.filter, hmoved, ne_eq, not_false_eq_true, decide_true, if_true, true_and]
  intro path
  by_cases hp : path = place
  · subst hp
    simp [AList.lookup_erase_ne (Ne.symm hmoved)]
  by_cases hold : file.path = path
  · subst hold
    simp [hp]
  · simp [AList.lookup_erase_ne (Ne.symm hold), AList.lookup_insert_ne hp, hp, hold]

variable {managed : Managed}

variable (layout) in
theorem placeOf_of_same {file : ManagedFile}
    (h : managed.lookup record.id = some file) (hsame : file.record = record) :
  placeOf layout managed record = file.path
  := by
  simp only [placeOf, h, hsame, if_true]

/-- A saved record is managed at its place. -/
theorem lookup_syncRecord_self (s : Syncing) (record : MemoryRecord) :
  (syncRecord yaml layout clock s record).managed.lookup record.id =
    some { path := placeOf layout s.managed record, record := record }
  := by
  rcases syncRecord_cases yaml layout clock s record with
    ⟨file, hlook, hsame, hs⟩ | ⟨hmgd, -⟩
  · rw [hs, hlook, placeOf_of_same layout hlook hsame]
    cases file
    cases hsame
    rfl
  · rw [hmgd, AList.lookup_insert]

variable {s : Syncing} {id : String}

theorem lookup_syncRecord_ne
    (h : id ≠ record.id) :
  (syncRecord yaml layout clock s record).managed.lookup id = s.managed.lookup id
  := by
  rcases syncRecord_cases yaml layout clock s record with ⟨-, -, -, hs⟩ | ⟨hmgd, -⟩
  · rw [hs]
  · rw [hmgd, AList.lookup_insert_ne h]

/-- The files at other places stay, but for the one the record had. -/
theorem disk_syncRecord_ne
    (hplace : path ≠ placeOf layout s.managed record)
    (hstor : stored s.managed record.id ≠ some path) :
  (syncRecord yaml layout clock s record).disk.lookup path = s.disk.lookup path
  := by
  rcases syncRecord_cases yaml layout clock s record with ⟨-, -, -, hs⟩ | ⟨-, hdisk⟩
  · rw [hs]
  · rw [hdisk, if_neg hplace, if_neg hstor]

/-- A record that moves leaves no file where it was. -/
theorem disk_syncRecord_moved
    (hplace : path ≠ placeOf layout s.managed record)
    (hstor : stored s.managed record.id = some path) :
  (syncRecord yaml layout clock s record).disk.lookup path = none
  := by
  rcases syncRecord_cases yaml layout clock s record with ⟨file, hlook, hsame, -⟩ | ⟨-, hdisk⟩
  · rw [stored, hlook, Option.map_some, Option.some.injEq] at hstor
    rw [placeOf_of_same layout hlook hsame, hstor] at hplace
    apply absurd rfl hplace
  · rw [hdisk, if_neg hplace, if_pos hstor]

/-! ### What is on the disk -/

/-- The files of records on the disk are the files of the records that are managed where they
are. -/
structure Located (yaml : Yaml) (layout : MarkdownMemoryLayout) (disk : Disk)
    (managed : Managed) : Prop where
  keyed : ∀ id file, managed.lookup id = some file → file.record.id = id
  paths : ∀ id file, managed.lookup id = some file → layout.isRecordPath file.path
  located : ∀ path f, disk.lookup path = some f → layout.isRecordPath path →
    ∃ id file, managed.lookup id = some file ∧ file.path = path ∧
      f.text = serializeRecord yaml file.record

/-- The file of the record is on the disk at this path. -/
def Written (yaml : Yaml) (disk : Disk) (path : Path) (record : MemoryRecord) : Prop :=
  ∃ f, disk.lookup path = some f ∧ f.text = serializeRecord yaml record

/-- The files of records on the disk are the files of the records that are managed, and each of
these has its own. -/
structure Tidy (yaml : Yaml) (layout : MarkdownMemoryLayout) (disk : Disk)
    (managed : Managed) : Prop extends Located yaml layout disk managed where
  distinct : ∀ id id' file file', managed.lookup id = some file →
    managed.lookup id' = some file' → file.path = file'.path → id = id'
  written : ∀ id file, managed.lookup id = some file → Written yaml disk file.path file.record

/-- The place of a record is the path of a file of a record. -/
theorem isRecordPath_placeOf
    (h : Located yaml layout disk managed) (hheld : Held env record) :
  layout.isRecordPath (placeOf layout managed record)
  := by
  have hreads : layout.reads (layout.directoryFor record.scope) := reads_directoryFor hheld.scope
  unfold placeOf
  split
  · rename_i file hlook
    have hpath := h.paths record.id file hlook
    split_ifs
    · apply hpath
    · rw [MarkdownMemoryLayout.isRecordPath, Bool.and_eq_true] at hpath ⊢
      exact ⟨hreads, hpath.2⟩
  obtain ⟨t, hmade⟩ := hheld.created
  rw [MarkdownMemoryLayout.isRecordPath, Bool.and_eq_true]
  use hreads
  apply isRecordName_canonicalFilename
  rw [hmade]
  apply Ecma.toISOString_head

theorem Located.syncRecord
    (h : Located yaml layout s.disk s.managed)
    (hplace : layout.isRecordPath (placeOf layout s.managed record)) :
  Located yaml layout (syncRecord yaml layout clock s record).disk
    (syncRecord yaml layout clock s record).managed
  := by
  rcases syncRecord_cases yaml layout clock s record with ⟨-, -, -, hs⟩ | ⟨hmgd, hdisk⟩
  · rw [hs]
    apply h
  constructor
  · intro id file hfile
    by_cases hid : id = record.id
    · rw [hid, lookup_syncRecord_self] at hfile
      cases hfile
      apply hid.symm
    · rw [lookup_syncRecord_ne hid] at hfile
      apply h.keyed id file hfile
  · intro id file hfile
    by_cases hid : id = record.id
    · rw [hid, lookup_syncRecord_self] at hfile
      cases hfile
      apply hplace
    · rw [lookup_syncRecord_ne hid] at hfile
      apply h.paths id file hfile
  intro path f hf hpath
  rw [hdisk] at hf
  split_ifs at hf with hp hold
  · cases hf
    exact ⟨record.id, _, lookup_syncRecord_self s record, hp.symm, rfl⟩
  obtain ⟨id, file, hfile, hpath', htext⟩ := h.located path f hf hpath
  -- It is not the file that the record had, which has moved.
  have hid : id ≠ record.id := by
    rintro rfl
    apply hold
    rw [stored, hfile, ← hpath']
    rfl
  exact ⟨id, file, by rw [lookup_syncRecord_ne hid, hfile], hpath', htext⟩

/-- No other record is managed at the place of this one. -/
def Vacant (layout : MarkdownMemoryLayout) (managed : Managed) (record : MemoryRecord) : Prop :=
  ∀ id file, managed.lookup id = some file → id ≠ record.id →
    file.path ≠ placeOf layout managed record

theorem Tidy.syncRecord
    (h : Tidy yaml layout s.disk s.managed)
    (hplace : layout.isRecordPath (placeOf layout s.managed record))
    (hvacant : Vacant layout s.managed record) :
  Tidy yaml layout (syncRecord yaml layout clock s record).disk
    (syncRecord yaml layout clock s record).managed
  := by
  refine ⟨h.toLocated.syncRecord hplace, ?_, ?_⟩
  · intro id id' file file' hfile hfile' heq
    by_cases hid : id = record.id
    · by_cases hid' : id' = record.id
      · rw [hid, hid']
      rw [hid, lookup_syncRecord_self] at hfile
      rw [lookup_syncRecord_ne hid'] at hfile'
      cases hfile
      apply absurd heq.symm (hvacant id' file' hfile' hid')
    rw [lookup_syncRecord_ne hid] at hfile
    by_cases hid' : id' = record.id
    · rw [hid', lookup_syncRecord_self] at hfile'
      cases hfile'
      apply absurd heq (hvacant id file hfile hid)
    · rw [lookup_syncRecord_ne hid'] at hfile'
      apply h.distinct id id' file file' hfile hfile' heq
  intro id file hfile
  by_cases hid : id = record.id
  · rw [hid, lookup_syncRecord_self] at hfile
    cases hfile
    rcases syncRecord_cases yaml layout clock s record with
      ⟨old, hlook, hsame, hs⟩ | ⟨-, hdisk⟩
    · have hold := h.written record.id old hlook
      rw [hs]
      rw [hsame, ← placeOf_of_same layout hlook hsame] at hold
      apply hold
    · refine ⟨_, by rw [hdisk, if_pos rfl], rfl⟩
  rw [lookup_syncRecord_ne hid] at hfile
  obtain ⟨f, hf, htext⟩ := h.written id file hfile
  have hstor : stored s.managed record.id ≠ some file.path := by
    intro hstor
    obtain ⟨old, hold, hpath⟩ := Option.map_eq_some_iff.mp hstor
    apply hid (h.distinct id record.id file old hfile hold hpath.symm)
  exact ⟨f, by rw [disk_syncRecord_ne (hvacant id file hfile hid) hstor, hf], htext⟩

/-! ### Removing the files of absent records -/

/-- A record that is in the set, or is not managed, is passed over; the file of any other is
removed. -/
theorem syncAbsent_cases (nextIds : List String) (s : Syncing) (id : String) :
  ((id ∈ nextIds ∨ s.managed.lookup id = none) ∧ syncAbsent nextIds s id = s) ∨
    ∃ file, id ∉ nextIds ∧ s.managed.lookup id = some file ∧
      (syncAbsent nextIds s id).managed = s.managed.erase id ∧
      (syncAbsent nextIds s id).disk = s.disk.erase file.path
  := by
  unfold syncAbsent
  split_ifs with hid
  · exact Or.inl ⟨Or.inl hid, rfl⟩
  · split
    · next hnone => exact Or.inl ⟨Or.inr hnone, rfl⟩
    · next file hfile => exact Or.inr ⟨file, hid, hfile, rfl, rfl⟩

/-- What is found after an erasure was there before. -/
theorem lookup_of_erase {α β : Type} [DecidableEq α] {l : AList fun _ : α => β} {a a' : α} {b : β}
    (h : (l.erase a).lookup a' = some b) :
  a' ≠ a ∧ l.lookup a' = some b
  := by
  have hne : a' ≠ a := by
    rintro rfl
    rw [AList.lookup_erase] at h
    cases h
  rw [AList.lookup_erase_ne hne] at h
  exact ⟨hne, h⟩

theorem Located.syncAbsent {nextIds : List String} (h : Located yaml layout s.disk s.managed) :
  Located yaml layout (syncAbsent nextIds s id).disk (syncAbsent nextIds s id).managed
  := by
  rcases syncAbsent_cases nextIds s id with ⟨-, hs⟩ | ⟨file, -, hfile, hmgd, hdisk⟩
  · rw [hs]
    apply h
  rw [hmgd, hdisk]
  constructor
  · intro id' file' h'
    apply h.keyed id' file' (lookup_of_erase h').2
  · intro id' file' h'
    apply h.paths id' file' (lookup_of_erase h').2
  intro path f hf hpath
  obtain ⟨hne, hf⟩ := lookup_of_erase hf
  obtain ⟨id', file', hfile', hpath', htext⟩ := h.located path f hf hpath
  have hid : id' ≠ id := by
    rintro rfl
    rw [hfile] at hfile'
    cases hfile'
    apply hne hpath'.symm
  exact ⟨id', file', by rw [AList.lookup_erase_ne hid, hfile'], hpath', htext⟩

theorem Tidy.syncAbsent {nextIds : List String} (h : Tidy yaml layout s.disk s.managed) :
  Tidy yaml layout (syncAbsent nextIds s id).disk (syncAbsent nextIds s id).managed
  := by
  refine ⟨h.toLocated.syncAbsent, ?_, ?_⟩
  all_goals
    rcases syncAbsent_cases nextIds s id with ⟨-, hs⟩ | ⟨file, -, hfile, hmgd, hdisk⟩
  · rw [hs]
    apply h.distinct
  · rw [hmgd]
    intro id₁ id₂ file₁ file₂ h₁ h₂
    apply h.distinct id₁ id₂ file₁ file₂ (lookup_of_erase h₁).2 (lookup_of_erase h₂).2
  · rw [hs]
    apply h.written
  rw [hmgd, hdisk]
  intro id' file' h'
  obtain ⟨hne, hfile'⟩ := lookup_of_erase h'
  obtain ⟨f, hf, htext⟩ := h.written id' file' hfile'
  have hpath : file'.path ≠ file.path := by
    intro heq
    apply hne (h.distinct id' id file' file hfile' hfile heq)
  exact ⟨f, by rw [AList.lookup_erase_ne hpath, hf], htext⟩

/-- The records of the set stay managed, and no others. -/
theorem lookup_syncAbsents (records : List MemoryRecord) (s : Syncing) (id : String) :
  (syncAbsents records s).managed.lookup id =
    if id ∈ records.map MemoryRecord.id then s.managed.lookup id else none
  := by
  have hstep : ∀ (t : Syncing) (i : String),
      (syncAbsent (records.map MemoryRecord.id) t i).managed.lookup id =
        if id ∈ records.map MemoryRecord.id ∨ id ≠ i then t.managed.lookup id else none := by
    intro t i
    rcases syncAbsent_cases (records.map MemoryRecord.id) t i with
      ⟨hskip, ht⟩ | ⟨file, hi, -, hmgd, -⟩
    · rw [ht]
      split_ifs with hid
      · rfl
      · push Not at hid
        obtain ⟨hid, rfl⟩ := hid
        apply hskip.resolve_left hid
    rw [hmgd]
    by_cases hid : id = i
    · subst hid
      rw [AList.lookup_erase, if_neg (by tauto)]
    · rw [AList.lookup_erase_ne hid, if_pos (Or.inr hid)]
  have hfold : ∀ (ids : List String) (t : Syncing),
      (ids.foldl (syncAbsent (records.map MemoryRecord.id)) t).managed.lookup id =
        if id ∈ records.map MemoryRecord.id ∨ id ∉ ids then t.managed.lookup id else none := by
    intro ids
    induction ids with
    | nil =>
      intro t
      simp
    | cons i ids ih =>
    intro t
    rw [foldl_cons, ih, hstep]
    simp only [mem_cons]
    split_ifs
    all_goals first | rfl | tauto
  rw [syncAbsents, hfold]
  by_cases hid : id ∈ records.map MemoryRecord.id
  · rw [if_pos (Or.inl hid), if_pos hid]
  rw [if_neg hid]
  split_ifs with h
  · rw [AList.lookup_eq_none, AList.mem_keys]
    apply h.resolve_left hid
  · rfl

variable {records : List MemoryRecord}

/-- What is on the disk after files have been removed was there before. -/
theorem disk_syncAbsents
    {f : MemoryFile} (h : (syncAbsents records s).disk.lookup path = some f) :
  s.disk.lookup path = some f
  := by
  revert h
  unfold syncAbsents
  apply List.foldlRecOn _ _ (motive := fun t : Syncing => t.disk.lookup path = some f →
    s.disk.lookup path = some f) id
  intro t ih id _ h
  apply ih
  rcases syncAbsent_cases (records.map MemoryRecord.id) t id with
    ⟨-, ht⟩ | ⟨file, -, -, -, hdisk⟩
  · rwa [ht] at h
  · rw [hdisk] at h
    apply (lookup_of_erase h).2

/-- The file of a record that is not in the set is removed. -/
theorem disk_syncAbsents_removed
    {file : ManagedFile} (hid : id ∉ records.map MemoryRecord.id)
    (hfile : s.managed.lookup id = some file) :
  (syncAbsents records s).disk.lookup file.path = none
  := by
  -- Until its turn comes the record is managed; then its file is removed for good.
  have hfold : (syncAbsents records s).managed.lookup id = some file ∨
      (syncAbsents records s).disk.lookup file.path = none := by
    unfold syncAbsents
    apply List.foldlRecOn _ _ (motive := fun t : Syncing => t.managed.lookup id = some file ∨
      t.disk.lookup file.path = none) (Or.inl hfile)
    intro t ih i _
    rcases syncAbsent_cases (records.map MemoryRecord.id) t i with
      ⟨-, ht⟩ | ⟨file', -, hfile', hmgd, hdisk⟩
    · rw [ht]
      apply ih
    rw [hmgd, hdisk]
    by_cases hpath : file.path = file'.path
    · right
      rw [hpath, AList.lookup_erase]
    rw [AList.lookup_erase_ne hpath]
    apply ih.imp_left
    intro hmgd'
    have hne : id ≠ i := by
      rintro rfl
      rw [hfile'] at hmgd'
      apply hpath (congrArg ManagedFile.path (Option.some.inj hmgd')).symm
    rw [AList.lookup_erase_ne hne, hmgd']
  apply hfold.resolve_left
  rw [lookup_syncAbsents, if_neg hid]
  exact nofun

/-! ### Writing the indexes -/

/-- No file of a record is an index. -/
theorem disk_writeIndexes {localeCompare : String → String → Ordering} (s : Syncing)
    (hpath : layout.isRecordPath path) :
  (writeIndexes layout localeCompare clock s).lookup path = s.disk.lookup path
  := by
  unfold writeIndexes
  apply List.foldlRecOn _ _ (motive := fun disk : Disk => disk.lookup path = s.disk.lookup path) rfl
  intro disk ih directory _
  unfold writeIndex
  split_ifs
  · apply ih
  rw [AList.lookup_insert_ne]
  · apply ih
  · rintro rfl
    simp [MarkdownMemoryLayout.isRecordPath, isRecordName] at hpath

theorem Located.congr {disk' : Disk} {managed' : Managed} (h : Located yaml layout disk managed)
    (hdisk : ∀ path, layout.isRecordPath path → disk'.lookup path = disk.lookup path)
    (hmgd : ∀ id, managed'.lookup id = managed.lookup id) :
  Located yaml layout disk' managed'
  := by
  constructor
  · intro id file hfile
    rw [hmgd] at hfile
    apply h.keyed id file hfile
  · intro id file hfile
    rw [hmgd] at hfile
    apply h.paths id file hfile
  intro path f hf hpath
  rw [hdisk path hpath] at hf
  simp only [hmgd]
  apply h.located path f hf hpath

theorem Tidy.congr {disk' : Disk} {managed' : Managed} (h : Tidy yaml layout disk managed)
    (hdisk : ∀ path, layout.isRecordPath path → disk'.lookup path = disk.lookup path)
    (hmgd : ∀ id, managed'.lookup id = managed.lookup id) :
  Tidy yaml layout disk' managed'
  := by
  refine ⟨h.toLocated.congr hdisk hmgd, ?_, ?_⟩
  · simp only [hmgd]
    apply h.distinct
  intro id file hfile
  rw [hmgd] at hfile
  rw [Written, hdisk _ (h.paths id file hfile)]
  apply h.written id file hfile

/-! ### Saving a set of records -/

/-- The places of a set of records: no two have one place, none has a place that a later one of
them leaves, and none has the place of a record that is not in the set. -/
structure Apart (layout : MarkdownMemoryLayout) (managed : Managed)
    (records : List MemoryRecord) : Prop where
  places : records.Pairwise fun q r => placeOf layout managed q ≠ placeOf layout managed r
  moved : records.Pairwise fun q r => stored managed r.id ≠ some (placeOf layout managed q)
  absent : ∀ r ∈ records, ∀ id file, managed.lookup id = some file →
    id ∉ records.map MemoryRecord.id → file.path ≠ placeOf layout managed r

theorem placeOf_congr {managed' : Managed}
    (h : managed'.lookup record.id = managed.lookup record.id) :
  placeOf layout managed' record = placeOf layout managed record
  := by
  rw [placeOf, h, placeOf]

variable {q : MemoryRecord}

theorem placeOf_syncRecord (h : q.id ≠ record.id) :
  placeOf layout (syncRecord yaml layout clock s record).managed q = placeOf layout s.managed q
  := placeOf_congr (lookup_syncRecord_ne h)

theorem stored_syncRecord
    (h : id ≠ record.id) :
  stored (syncRecord yaml layout clock s record).managed id = stored s.managed id
  := by
  rw [stored, lookup_syncRecord_ne h, stored]

/-- The first record of a set has a vacant place. -/
theorem Apart.head
    (h : Apart layout managed (record :: records)) :
  Vacant layout managed record
  := by
  intro id file hfile hid heq
  by_cases hmem : id ∈ records.map MemoryRecord.id
  · obtain ⟨r, hr, rfl⟩ := mem_map.mp hmem
    apply (pairwise_cons.mp h.moved).1 r hr
    rw [stored, hfile, ← heq]
    rfl
  · apply h.absent record mem_cons_self id file hfile _ heq
    simp only [map_cons, mem_cons, not_or]
    exact ⟨hid, hmem⟩

/-- The places of the others are still apart when the first record of a set is saved. -/
theorem Apart.tail
    (h : Apart layout s.managed (record :: records))
    (hnodup : record.id ∉ records.map MemoryRecord.id) :
  Apart layout (syncRecord yaml layout clock s record).managed records
  := by
  have hne : ∀ r ∈ records, r.id ≠ record.id := by
    intro r hr heq
    apply hnodup (heq ▸ mem_map_of_mem hr)
  constructor
  · apply (pairwise_cons.mp h.places).2.imp_of_mem
    intro q r hq hr
    rw [placeOf_syncRecord (hne q hq), placeOf_syncRecord (hne r hr)]
    exact id
  · apply (pairwise_cons.mp h.moved).2.imp_of_mem
    intro q r hq hr
    rw [stored_syncRecord (hne r hr), placeOf_syncRecord (hne q hq)]
    exact id
  intro r hr id file hfile hid
  rw [placeOf_syncRecord (hne r hr)]
  by_cases heq : id = record.id
  · rw [heq, lookup_syncRecord_self] at hfile
    cases hfile
    apply (pairwise_cons.mp h.places).1 r hr
  rw [lookup_syncRecord_ne heq] at hfile
  apply h.absent r (mem_cons_of_mem _ hr) id file hfile
  simp only [map_cons, mem_cons, not_or]
  exact ⟨heq, hid⟩

/-- Only the records of a set become managed elsewhere. -/
theorem lookup_syncRecords_of_not_mem
    (h : id ∉ records.map MemoryRecord.id) :
  (syncRecords yaml layout clock records s).managed.lookup id = s.managed.lookup id
  := by
  induction records generalizing s with
  | nil => rfl
  | cons r records ih =>
    simp only [map_cons, mem_cons, not_or] at h
    rw [syncRecords, foldl_cons]
    apply (ih h.2).trans (lookup_syncRecord_ne h.1)

/-- The records of a set are managed at their places. -/
theorem lookup_syncRecords_of_mem
    (hnodup : (records.map MemoryRecord.id).Nodup) {r : MemoryRecord} (hr : r ∈ records) :
  (syncRecords yaml layout clock records s).managed.lookup r.id =
    some { path := placeOf layout s.managed r, record := r }
  := by
  induction records generalizing s with
  | nil => cases hr
  | cons q records ih =>
  rw [map_cons, nodup_cons] at hnodup
  rw [syncRecords, foldl_cons]
  rcases mem_cons.mp hr with rfl | hr
  · apply (lookup_syncRecords_of_not_mem hnodup.1).trans (lookup_syncRecord_self s r)
  · have hne : r.id ≠ q.id := fun heq => hnodup.1 (heq ▸ mem_map_of_mem hr)
    apply (ih hnodup.2 hr).trans
    rw [placeOf_syncRecord hne]

theorem Located.syncRecords
    (h : Located yaml layout s.disk s.managed) (hheld : ∀ r ∈ records, Held env r) :
  Located yaml layout (syncRecords yaml layout clock records s).disk
    (syncRecords yaml layout clock records s).managed
  := by
  unfold Markdown.syncRecords
  apply List.foldlRecOn _ _ (motive := fun t : Syncing => Located yaml layout t.disk t.managed) h
  intro t ht r hr
  apply ht.syncRecord (isRecordPath_placeOf ht (hheld r hr))

theorem Tidy.syncRecords
    (h : Tidy yaml layout s.disk s.managed) (hheld : ∀ r ∈ records, Held env r)
    (hnodup : (records.map MemoryRecord.id).Nodup) (hapart : Apart layout s.managed records) :
  Tidy yaml layout (syncRecords yaml layout clock records s).disk
    (syncRecords yaml layout clock records s).managed
  := by
  induction records generalizing s with
  | nil => apply h
  | cons r records ih =>
  rw [map_cons, nodup_cons] at hnodup
  have hplace := isRecordPath_placeOf h.toLocated (hheld r mem_cons_self)
  rw [Markdown.syncRecords, foldl_cons]
  apply ih (h.syncRecord hplace hapart.head) (fun q hq => hheld q (mem_cons_of_mem r hq))
    hnodup.2 (hapart.tail hnodup.1)

section Saving

variable {localeCompare : String → String → Ordering} {records : List MemoryRecord}
  {m : MarkdownMemory}

/-- The records of a set that is saved are managed at their places, and no others are managed. -/
theorem lookup_syncToDisk (hnodup : (records.map MemoryRecord.id).Nodup) {id : String}
    {file : ManagedFile} :
  (syncToDisk yaml layout localeCompare clock records m).managed.lookup id = some file ↔
    ∃ r ∈ records, r.id = id ∧ file = { path := placeOf layout m.managed r, record := r }
  := by
  rw [syncToDisk, lookup_syncAbsents]
  split_ifs with hid
  · obtain ⟨q, hq, rfl⟩ := mem_map.mp hid
    rw [lookup_syncRecords_of_mem hnodup hq, Option.some.injEq]
    constructor
    · intro hfile
      exact ⟨q, hq, rfl, hfile.symm⟩
    · rintro ⟨r, hr, hrq, rfl⟩
      rw [inj_on_of_nodup_map hnodup hr hq hrq]
  constructor
  · exact nofun
  · rintro ⟨r, hr, rfl, -⟩
    apply absurd (mem_map_of_mem hr) hid

theorem Located.syncToDisk (h : Located yaml layout m.disk m.managed)
    (hheld : ∀ r ∈ records, Held env r) :
  Located yaml layout (syncToDisk yaml layout localeCompare clock records m).disk
    (syncToDisk yaml layout localeCompare clock records m).managed
  := by
  unfold Markdown.syncToDisk
  generalize hs : Markdown.syncRecords yaml layout clock records _ = s
  have hlocated : Located yaml layout s.disk s.managed := by
    rw [← hs]
    apply Located.syncRecords h hheld
  have habsents : Located yaml layout (syncAbsents records s).disk
      (syncAbsents records s).managed := by
    unfold syncAbsents
    apply List.foldlRecOn _ _
      (motive := fun t : Syncing => Located yaml layout t.disk t.managed) hlocated
    intro t ht id _
    apply ht.syncAbsent
  apply habsents.congr (fun path hpath => disk_writeIndexes _ hpath) fun _ => rfl

theorem Tidy.syncToDisk (h : Tidy yaml layout m.disk m.managed)
    (hheld : ∀ r ∈ records, Held env r) (hnodup : (records.map MemoryRecord.id).Nodup)
    (hapart : Apart layout m.managed records) :
  Tidy yaml layout (syncToDisk yaml layout localeCompare clock records m).disk
    (syncToDisk yaml layout localeCompare clock records m).managed
  := by
  unfold Markdown.syncToDisk
  generalize hs : Markdown.syncRecords yaml layout clock records _ = s
  have htidy : Tidy yaml layout s.disk s.managed := by
    rw [← hs]
    apply Tidy.syncRecords h hheld hnodup hapart
  have habsents : Tidy yaml layout (syncAbsents records s).disk
      (syncAbsents records s).managed := by
    unfold syncAbsents
    apply List.foldlRecOn _ _
      (motive := fun t : Syncing => Tidy yaml layout t.disk t.managed) htidy
    intro t ht id _
    apply ht.syncAbsent
  apply habsents.congr (fun path hpath => disk_writeIndexes _ hpath) fun _ => rfl

end Saving

/-! ### Loading what was saved -/

theorem Loaded.lookup_managed (loaded : Loaded) (id : String) :
  loaded.managed.lookup id = (loaded.byId.lookup id).map LoadedFile.file
  := dlookup_map₂ (f := fun _ (l : LoadedFile) => l.file) id

/-- The records a load returns are those of the files it has read, one for each id. -/
theorem Loaded.mem_records {loaded : Loaded} :
  record ∈ loaded.records ↔ ∃ id file, loaded.managed.lookup id = some file ∧ file.record = record
  := by
  constructor
  · intro h
    obtain ⟨entry, hentry, rfl⟩ := mem_map.mp h
    have hlook : loaded.byId.lookup entry.1 = some entry.2 := AList.mem_lookup_iff.mpr hentry
    exact ⟨entry.1, entry.2.file, by rw [lookup_managed, hlook]; rfl, rfl⟩
  rintro ⟨id, file, hfile, rfl⟩
  rw [lookup_managed, Option.map_eq_some_iff] at hfile
  obtain ⟨l, hl, rfl⟩ := hfile
  have hentry : (⟨id, l⟩ : Σ _ : String, LoadedFile) ∈ loaded.byId.entries :=
    AList.mem_lookup_iff.mp hl
  exact mem_map_of_mem hentry

variable (env yaml) in
/-- The record is read back from its file, whenever that was written. -/
def Readable (record : MemoryRecord) : Prop :=
  ∀ mtimeMs, parseMemoryFile env yaml (serializeRecord yaml record) mtimeMs = some record

theorem readMemoryFile_eq_some {l : LoadedFile} :
  readMemoryFile env yaml disk path = some l ↔
    ∃ f, disk.lookup path = some f ∧ l.file.path = path ∧ l.mtimeMs = f.mtimeMs ∧
      parseMemoryFile env yaml f.text f.mtimeMs = some l.file.record
  := by
  unfold readMemoryFile
  cases hf : disk.lookup path with
  | none => simp
  | some f =>
  cases hr : parseMemoryFile env yaml f.text f.mtimeMs with
  | none => simp [hr]
  | some r =>
    rcases l with ⟨⟨lpath, lrecord⟩, lmtime⟩
    simp [hr, eq_comm, and_comm, and_assoc]

section Loading

variable {disk : Disk} {managed : Managed} {listing : List Path}

/-- A load sees the files where they are managed. -/
theorem lookup_loadUnlocked (h : Tidy yaml layout disk managed)
    (hreadable : ∀ id file, managed.lookup id = some file → Readable env yaml file.record)
    (hlist : listing.Perm disk.keys) (id : String) :
  (loadUnlocked env yaml layout disk listing).managed.lookup id = managed.lookup id
  := by
  have hreads := reads_loadUnlocked env yaml layout disk listing
  -- What has been read is managed where it was read.
  have hsound : ∀ l, (loadUnlocked env yaml layout disk listing).byId.lookup id = some l →
      managed.lookup id = some l.file := by
    intro l hl
    obtain ⟨path, -, hrec, hread, hid⟩ := hreads.sound id l hl
    obtain ⟨f, hf, hpath, -, hparse⟩ := readMemoryFile_eq_some.mp hread
    obtain ⟨id', file, hfile, hpath', htext⟩ := h.located path f hf hrec
    rw [htext, hreadable id' file hfile, Option.some.injEq] at hparse
    have hl : l.file = file := by
      cases hlf : l.file
      cases file
      simp_all
    rw [hl, h.keyed id' file hfile] at hid
    rw [hl, ← hid, hfile]
  rw [Loaded.lookup_managed]
  cases hl : (loadUnlocked env yaml layout disk listing).byId.lookup id with
  | some l => rw [hsound l hl, Option.map_some]
  | none =>
  rw [Option.map_none]
  symm
  rw [Option.eq_none_iff_forall_ne_some]
  intro file hfile
  obtain ⟨f, hf, htext⟩ := h.written id file hfile
  have hmem : file.path ∈ listing := by
    rw [hlist.mem_iff, ← AList.mem_keys, ← AList.lookup_isSome, hf]
    rfl
  have hread : readMemoryFile env yaml disk file.path =
      some { file := file, mtimeMs := f.mtimeMs } := by
    rw [readMemoryFile_eq_some]
    exact ⟨f, hf, rfl, rfl, by rw [htext, hreadable id file hfile]⟩
  have hsome := hreads.complete file.path hmem (h.paths id file hfile) _ hread
  rw [h.keyed id file hfile, hl] at hsome
  cases hsome

end Loading

/-! ### Runs -/

/-- The repository, and the records that were saved last. -/
structure State where
  memory : MarkdownMemory
  saved : List MemoryRecord

/-- What a repository without files starts from. -/
def initial : State where
  memory := { disk := ∅, managed := ∅ }
  saved := []

/-- A load lists the files of all directories in any order, and a save writes files at any
times. -/
inductive Operation where
  | load (listing : List Path)
  | save (records : MemoryRecords) (clock : Path → ℤ)
  | transaction (listing : List Path) (operation : List MemoryRecord → MemoryRecords)
      (clock : Path → ℤ)

section Steps

variable (env : MemoryExternals) (yaml : Yaml) (layout : MarkdownMemoryLayout)
  (localeCompare : String → String → Ordering)

/-- What a load returns. -/
def State.loaded (s : State) (listing : List Path) : Loaded :=
  loadUnlocked env yaml layout s.memory.disk listing

def State.load (s : State) (listing : List Path) : State :=
  { s with memory := { s.memory with managed := (s.loaded env yaml layout listing).managed } }

def State.save (s : State) (records : MemoryRecords) (clock : Path → ℤ) : State where
  memory := syncToDisk yaml layout localeCompare clock records.records s.memory
  saved := records.records

/-- A load or a transaction happens with a listing of what is on the disk. -/
def step (s : State) : Operation → Option State
  | .load listing =>
    if listing.Perm s.memory.disk.keys then some (s.load env yaml layout listing) else none
  | .save records clock => some (s.save yaml layout localeCompare records clock)
  | .transaction listing operation clock =>
    if listing.Perm s.memory.disk.keys then
      some ((s.load env yaml layout listing).save yaml layout localeCompare
        (operation (s.loaded env yaml layout listing).records) clock)
    else none

/-- Every load returns exactly these records, in some order. -/
def State.Returns (s : State) (records : List MemoryRecord) : Prop :=
  ∀ listing, listing.Perm s.memory.disk.keys →
    (s.loaded env yaml layout listing).records.Perm records

/-- Records that the service can hold, and that the YAML package brings back. -/
def Storable (records : MemoryRecords) : Prop :=
  ∀ r ∈ records.records, Held env r ∧ yaml.RoundTrips (frontmatterFor r)

/-- The YAML package brings the records back without the last line feed of their texts too. -/
def Trimmable (records : MemoryRecords) : Prop :=
  ∀ r ∈ records.records, yaml.Trims (frontmatterFor r)

/-- No id has a colon, and the places of the records are apart. -/
def Separate (managed : Managed) (records : MemoryRecords) : Prop :=
  (∀ r ∈ records.records, ':' ∉ r.id.toList) ∧ Apart layout managed records.records

/-- The records that are saved are storable, and they are trimmable and separate. -/
def Faultless (s : State) : Operation → Prop
  | .load _ => True
  | .save records _ =>
    Storable env yaml records ∧ Trimmable yaml records ∧ Separate layout s.memory.managed records
  | .transaction listing operation _ =>
    let t := s.load env yaml layout listing
    let records := operation (s.loaded env yaml layout listing).records
    Storable env yaml records ∧ Trimmable yaml records ∧ Separate layout t.memory.managed records

/-- The records that were saved last are those that are managed, and each has its own file. -/
structure Faithful (s : State) : Prop where
  tidy : Tidy yaml layout s.memory.disk s.memory.managed
  readable : ∀ id file, s.memory.managed.lookup id = some file → Readable env yaml file.record
  saved : ∀ r, r ∈ s.saved ↔ ∃ id file, s.memory.managed.lookup id = some file ∧ file.record = r
  nodup : s.saved.Nodup

end Steps

variable {localeCompare : String → String → Ordering}

/-- A load returns no record twice. -/
theorem nodup_loaded (disk : Disk) (listing : List Path) :
  (loadUnlocked env yaml layout disk listing).records.Nodup
  := by
  have hreads := reads_loadUnlocked env yaml layout disk listing
  have hkey : ∀ entry ∈ (loadUnlocked env yaml layout disk listing).byId.entries,
      (loadUnlocked env yaml layout disk listing).byId.lookup entry.1 = some entry.2 :=
    fun entry hentry => AList.mem_lookup_iff.mpr hentry
  have hid : ∀ entry ∈ (loadUnlocked env yaml layout disk listing).byId.entries,
      entry.2.file.record.id = entry.1 := by
    intro entry hentry
    obtain ⟨-, -, -, -, hid⟩ := hreads.sound _ _ (hkey entry hentry)
    apply hid
  apply Nodup.map_on
  · rintro ⟨id, l⟩ hl ⟨id', l'⟩ hl' heq
    obtain rfl : id = id' := by
      calc id = l.file.record.id := (hid ⟨id, l⟩ hl).symm
        _ = l'.file.record.id := congrArg MemoryRecord.id heq
        _ = id' := hid ⟨id', l'⟩ hl'
    obtain rfl : l = l' := Option.some.inj ((hkey ⟨id, l⟩ hl).symm.trans (hkey ⟨id, l'⟩ hl'))
    rfl
  · apply (loadUnlocked env yaml layout disk listing).byId.nodupKeys.nodup

theorem faithful_initial :
  Faithful env yaml layout initial
  := by
  refine ⟨⟨⟨?_, ?_, ?_⟩, ?_, ?_⟩, ?_, ?_, nodup_nil⟩
  all_goals simp [initial]

/-- Where the records are faithful, every load returns them. -/
theorem Faithful.returns {s : State} (h : Faithful env yaml layout s) :
  s.Returns env yaml layout s.saved
  := by
  intro listing hlist
  apply (perm_ext_iff_of_nodup (nodup_loaded _ _) h.nodup).mpr
  intro r
  rw [h.saved, Loaded.mem_records]
  simp only [lookup_loadUnlocked h.tidy h.readable hlist]

theorem Faithful.load {s : State} {listing : List Path} (h : Faithful env yaml layout s)
    (hlist : listing.Perm s.memory.disk.keys) :
  Faithful env yaml layout (s.load env yaml layout listing)
  := by
  have hmgd : ∀ id, (s.load env yaml layout listing).memory.managed.lookup id =
      s.memory.managed.lookup id :=
    lookup_loadUnlocked h.tidy h.readable hlist
  refine ⟨h.tidy.congr (fun _ _ => rfl) hmgd, ?_, ?_, h.nodup⟩
  · intro id file hfile
    rw [hmgd] at hfile
    apply h.readable id file hfile
  · simp only [hmgd]
    apply h.saved

/-- Saving records that are separate keeps them faithful. -/
theorem Faithful.save {s : State} {records : MemoryRecords} (htimes : env.ReadsTimes)
    (h : Faithful env yaml layout s) (hstor : Storable env yaml records)
    (htrims : Trimmable yaml records) (hsep : Separate layout s.memory.managed records) :
  Faithful env yaml layout (s.save yaml layout localeCompare records clock)
  := by
  refine ⟨?_, ?_, ?_, ?_⟩
  · apply h.tidy.syncToDisk (fun r hr => (hstor r hr).1) records.nodup hsep.2
  · intro id file hfile
    obtain ⟨r, hr, rfl, rfl⟩ := (lookup_syncToDisk records.nodup).mp hfile
    intro mtimeMs
    apply parse_serialize env htimes (hstor r hr).1 (hstor r hr).2 (htrims r hr)
      (hsep.1 r hr)
  · intro r
    constructor
    · intro hr
      exact ⟨r.id, _, (lookup_syncToDisk records.nodup).mpr ⟨r, hr, rfl, rfl⟩, rfl⟩
    · rintro ⟨id, file, hfile, rfl⟩
      obtain ⟨r, hr, rfl, rfl⟩ := (lookup_syncToDisk records.nodup).mp hfile
      apply hr
  · apply records.nodup.of_map

/-- Every operation on records that are separate keeps them faithful. -/
theorem faithful_step {s t : State} {operation : Operation} (htimes : env.ReadsTimes)
    (h : Faithful env yaml layout s) (hok : Faultless env yaml layout s operation)
    (hstep : step env yaml layout localeCompare s operation = some t) :
  Faithful env yaml layout t
  := by
  cases operation with
  | load listing =>
    simp only [step] at hstep
    split_ifs at hstep with hlist
    cases hstep
    apply h.load hlist
  | save records clock =>
    cases hstep
    apply h.save htimes hok.1 hok.2.1 hok.2.2
  | transaction listing operation clock =>
  simp only [step] at hstep
  split_ifs at hstep with hlist
  cases hstep
  apply (h.load hlist).save htimes hok.1 hok.2.1 hok.2.2

/-! ### Records that are not separate -/

/-- A file that is lost does not come back when another record is saved. -/
theorem not_written_syncRecord
    (h : ¬ Written yaml s.disk path q)
    (hne : serializeRecord yaml record ≠ serializeRecord yaml q) :
  ¬ Written yaml (syncRecord yaml layout clock s record).disk path q
  := by
  rcases syncRecord_cases yaml layout clock s record with ⟨-, -, -, hs⟩ | ⟨-, hdisk⟩
  · rw [hs]
    apply h
  rintro ⟨f, hf, htext⟩
  rw [hdisk] at hf
  split_ifs at hf with hplace hstor
  · cases hf
    apply hne htext
  · apply h ⟨f, hf, htext⟩

theorem not_written_syncRecords
    (h : ¬ Written yaml s.disk path q)
    (hne : ∀ r ∈ records, serializeRecord yaml r ≠ serializeRecord yaml q) :
  ¬ Written yaml (syncRecords yaml layout clock records s).disk path q
  := by
  unfold syncRecords
  apply List.foldlRecOn _ _ (motive := fun t : Syncing => ¬ Written yaml t.disk path q) h
  intro t ht r hr
  apply not_written_syncRecord ht (hne r hr)

/-- If a record has the place that a later one leaves, its file is lost. -/
theorem moved_of_written
    (hnodup : (records.map MemoryRecord.id).Nodup)
    (hinj : ∀ q ∈ records, ∀ r ∈ records, serializeRecord yaml q = serializeRecord yaml r → q = r)
    (hplaces : records.Pairwise fun q r =>
      placeOf layout s.managed q ≠ placeOf layout s.managed r)
    (hwrote : ∀ r ∈ records, Written yaml (syncRecords yaml layout clock records s).disk
      (placeOf layout s.managed r) r) :
  records.Pairwise fun q r => stored s.managed r.id ≠ some (placeOf layout s.managed q)
  := by
  induction records generalizing s with
  | nil => exact List.Pairwise.nil
  | cons q records ih =>
  rw [map_cons, nodup_cons] at hnodup
  rw [pairwise_cons] at hplaces
  have hne : ∀ r ∈ records, r.id ≠ q.id := by
    intro r hr heq
    apply hnodup.1 (heq ▸ mem_map_of_mem hr)
  rw [pairwise_cons]
  constructor
  · intro r hr hstor
    obtain ⟨pre, post, rfl⟩ := append_of_mem hr
    -- When `r` is saved it leaves the place of `q`, which is not written to after that.
    have hpre : r.id ∉ pre.map MemoryRecord.id := by
      have hnd := hnodup.2
      rw [map_append, map_cons, nodup_append] at hnd
      intro hmem
      apply hnd.2.2 r.id hmem r.id mem_cons_self rfl
    have hlook : (syncRecords yaml layout clock pre
        (syncRecord yaml layout clock s q)).managed.lookup r.id = s.managed.lookup r.id :=
      (lookup_syncRecords_of_not_mem hpre).trans (lookup_syncRecord_ne (hne r hr))
    unfold syncRecords at hlook
    apply absurd (hwrote q mem_cons_self)
    rw [syncRecords, foldl_cons, foldl_append, foldl_cons]
    apply not_written_syncRecords
    · rintro ⟨f, hf, -⟩
      rw [disk_syncRecord_moved] at hf
      · cases hf
      · rw [placeOf_congr hlook]
        apply hplaces.1 r hr
      · rw [stored, hlook]
        apply hstor
    intro x hx heq
    have hmem : x ∈ pre ++ r :: post := by simp [hx]
    have hxq := hinj x (mem_cons_of_mem q hmem) q mem_cons_self heq
    apply hne x hmem (congrArg MemoryRecord.id hxq)
  have hplace : ∀ r ∈ records, placeOf layout
      (syncRecord yaml layout clock s q).managed r = placeOf layout s.managed r :=
    fun r hr => placeOf_syncRecord (hne r hr)
  have htail := ih hnodup.2
    (fun x hx y hy => hinj x (mem_cons_of_mem q hx) y (mem_cons_of_mem q hy))
    (hplaces.2.imp_of_mem fun {x y} hx hy h => by rwa [hplace x hx, hplace y hy]) (fun r hr => by
      rw [hplace r hr]
      apply hwrote r (mem_cons_of_mem q hr))
  apply htail.imp_of_mem
  intro x y hx hy
  rw [stored_syncRecord (hne y hy), hplace x hx]
  exact id

/-- If every load returns the records of a set that was saved, each is on the disk at its place,
and its id has no colon. -/
theorem written_of_returns {s : State} {records : MemoryRecords} (htimes : env.ReadsTimes)
    (h : Located yaml layout s.memory.disk s.memory.managed) (hstor : Storable env yaml records)
    (htrims : Trimmable yaml records)
    (hret : (s.save yaml layout localeCompare records clock).Returns env yaml layout
      records.records) {r : MemoryRecord} (hr : r ∈ records.records) :
  ':' ∉ r.id.toList ∧ Written yaml (s.save yaml layout localeCompare records clock).memory.disk
      (placeOf layout s.memory.managed r) r
  := by
  have hheld : ∀ q ∈ records.records, Held env q := fun q hq => (hstor q hq).1
  have hlocated : Located yaml layout (s.save yaml layout localeCompare records clock).memory.disk
      (s.save yaml layout localeCompare records clock).memory.managed := h.syncToDisk hheld
  have hload := (hret _ (Perm.refl _)).mem_iff.mpr hr
  obtain ⟨id, file, hfile, hrec⟩ := Loaded.mem_records.mp hload
  rw [Loaded.lookup_managed, Option.map_eq_some_iff] at hfile
  obtain ⟨l, hl, rfl⟩ := hfile
  obtain ⟨path, -, hpath, hread, -⟩ := (reads_loadUnlocked _ _ _ _ _).sound id l hl
  obtain ⟨f, hf, -, -, hparse⟩ := readMemoryFile_eq_some.mp hread
  obtain ⟨id', file', hfile', rfl, htext⟩ := hlocated.located path f hf hpath
  obtain ⟨q, hq, rfl, rfl⟩ := (lookup_syncToDisk records.nodup).mp hfile'
  rw [htext, hrec] at hparse
  have hcolon : ':' ∉ q.id.toList := by
    intro hmem
    rw [parse_of_colon env (hheld q hq) (hstor q hq).2 (htrims q hq) hmem] at hparse
    cases hparse
  rw [parse_serialize env htimes (hheld q hq) (hstor q hq).2 (htrims q hq) hcolon,
    Option.some.injEq] at hparse
  subst hparse
  exact ⟨hcolon, f, hf, htext⟩

/-- The records of a set that is saved are separate, if every load returns them. -/
theorem separate_of_returns {s : State} {records : MemoryRecords} (htimes : env.ReadsTimes)
    (h : Located yaml layout s.memory.disk s.memory.managed) (hstor : Storable env yaml records)
    (htrims : Trimmable yaml records)
    (hret : (s.save yaml layout localeCompare records clock).Returns env yaml layout
      records.records) :
  Separate layout s.memory.managed records
  := by
  have hheld : ∀ q ∈ records.records, Held env q := fun q hq => (hstor q hq).1
  have hwrote := fun r hr => written_of_returns htimes h hstor htrims hret (r := r) hr
  have hparse : ∀ r ∈ records.records, ∀ t,
      parseMemoryFile env yaml (serializeRecord yaml r) t = some r := by
    intro r hr t
    apply parse_serialize env htimes (hheld r hr) (hstor r hr).2 (htrims r hr)
      (hwrote r hr).1
  have hinj : ∀ q ∈ records.records, ∀ r ∈ records.records,
      serializeRecord yaml q = serializeRecord yaml r → q = r := by
    intro q hq r hr heq
    have hqr := hparse q hq 0
    rw [heq, hparse r hr 0] at hqr
    apply (Option.some.inj hqr).symm
  -- Before files are removed, the records are on the disk as well.
  have hpre : ∀ r ∈ records.records, Written yaml (syncAbsents records.records
      (syncRecords yaml layout clock records.records
        { disk := s.memory.disk, managed := s.memory.managed, touched := [] })).disk
      (placeOf layout s.memory.managed r) r := by
    intro r hr
    obtain ⟨f, hf, htext⟩ := (hwrote r hr).2
    exact ⟨f, (disk_writeIndexes _ (isRecordPath_placeOf h (hheld r hr))).symm.trans hf, htext⟩
  have hplaces : records.records.Pairwise fun q r =>
      placeOf layout s.memory.managed q ≠ placeOf layout s.memory.managed r := by
    apply records.nodup.of_map.pairwise_of_forall_ne
    intro q hq r hr hne heq
    obtain ⟨f, hf, htext⟩ := (hwrote q hq).2
    obtain ⟨g, hg, htext'⟩ := (hwrote r hr).2
    rw [heq, hg] at hf
    cases hf
    apply hne (hinj q hq r hr (htext.symm.trans htext'))
  refine ⟨fun r hr => (hwrote r hr).1, hplaces, ?_, ?_⟩
  · apply moved_of_written
      (s := { disk := s.memory.disk, managed := s.memory.managed, touched := [] }) records.nodup hinj hplaces
    intro r hr
    obtain ⟨f, hf, htext⟩ := hpre r hr
    exact ⟨f, disk_syncAbsents hf, htext⟩
  intro r hr id file hfile hid heq
  obtain ⟨f, hf, -⟩ := hpre r hr
  rw [← heq, disk_syncAbsents_removed hid] at hf
  · cases hf
  · rw [lookup_syncRecords_of_not_mem hid]
    apply hfile

/-! ### Everything that is saved is loaded -/

/-- In every run from an empty disk whose saves are of records that are separate, every load
returns exactly the records that were saved last; and every load after one more save returns
exactly the records of that save if and only if these are separate. -/
theorem loads_saved {s : State} {operations : List Operation} (htimes : env.ReadsTimes)
    (hok : Guarded (step env yaml layout localeCompare) (Faultless env yaml layout) initial
      operations)
    (hrun : run (step env yaml layout localeCompare) initial operations = some s) :
  s.Returns env yaml layout s.saved ∧
    ∀ records clock, Storable env yaml records → Trimmable yaml records →
      ((s.save yaml layout localeCompare records clock).Returns env yaml layout records.records ↔
        Separate layout s.memory.managed records)
  := by
  have h : Faithful env yaml layout s :=
    Guarded.invariant (fun s operation t hs => faithful_step htimes hs) faithful_initial hok hrun
  use h.returns
  intro records clock hstor htrims
  constructor
  · apply separate_of_returns htimes h.tidy.toLocated hstor htrims
  · intro hsep
    apply (h.save htimes hstor htrims hsep).returns

/-! ### Two notes -/

/-- A value as the YAML package writes it behind the key of a mapping, if it is a text that needs
no quotes, a number, a truth value or nothing. -/
def plainText : Json → List Char
  | .null => ['n', 'u', 'l', 'l']
  | .bool true => ['t', 'r', 'u', 'e']
  | .bool false => ['f', 'a', 'l', 's', 'e']
  | .num d => d.print
  | .str s => s.toList
  | .arr _ => ['[', ']']
  | .obj _ => ['\x7b', '\x7d']

/-- A mapping as the YAML package writes it, a key in each line. -/
def blockText : Json → List Char
  | .obj ms => ms.flatMap fun m => m.1.toList ++ ':' :: ' ' :: (plainText m.2 ++ ['\n'])
  | v => plainText v

/-- The YAML package on the texts of these mappings, with and without the line feed at the end. -/
def yamlOf (values : List Json) : Yaml where
  stringify := blockText
  parse text := values.find? fun v =>
    decide (blockText v = text) || decide ((blockText v).dropLast = text)

/-- A note of the first day of 2026. -/
def note (id content : String) : MemoryRecord where
  id := id
  scope := .workspace "home"
  content := content
  provenance := { source := .user, actorId := none, sourceId := none, importedFrom := none }
  attachments := []
  tags := []
  pinned := false
  createdAt := Ecma.toISOString 1767225600000
  updatedAt := Ecma.toISOString 1767225600000
  deletedAt := none

def firstNote : MemoryRecord :=
  note "release-notes-1" "Release notes of the first version"

def secondNote : MemoryRecord :=
  note "release-notes-2" "Release notes of the first version"

def otherNote : MemoryRecord :=
  note "style-guide" "Style guide"

/-- No text of a note is taken for a secret, and all its times are times. -/
def noteExternals : MemoryExternals where
  detectSecret _ := false
  isDate _ := true

def noteYaml : Yaml :=
  yamlOf [frontmatterFor firstNote, frontmatterFor secondNote, frontmatterFor otherNote]

def homeLayout : MarkdownMemoryLayout where
  root := "/home/.volund/memory"
  currentProjectId := none
  currentProjectDir := none

theorem held_note {content : String} (h : builtinPreWrite noteExternals id content = .ok ()) :
  Held noteExternals (note id content)
  where
    scope := by
      have hhome : validIdentifier "home" := by decide +kernel
      simp [validateScope, note, hhome]
    content := h
    tags := ⟨[], by simp [normalizeTags, Ecma.toSorted, note]⟩
    attachments := ⟨[], rfl⟩
    created := ⟨_, rfl⟩
    updated := ⟨_, rfl⟩
    deleted := nofun

/-- A value is found by its text among values with other texts before it. -/
theorem parse_yamlOf {us vs : List Json} {v : Json} {text : List Char}
    (hus : ∀ u ∈ us, blockText u ≠ text ∧ (blockText u).dropLast ≠ text)
    (hv : blockText v = text ∨ (blockText v).dropLast = text) :
  (yamlOf (us ++ v :: vs)).parse text = some v
  := by
  have hnone : us.find? (fun u => decide (blockText u = text) ||
      decide ((blockText u).dropLast = text)) = none := by
    rw [List.find?_eq_none]
    intro u hu
    simpa using hus u hu
  simp only [yamlOf, List.find?_append, hnone, Option.none_or]
  rw [List.find?_cons_of_pos]
  simpa using hv

/-- The YAML package brings the notes back. -/
theorem roundTrips_note (us vs : List Json) {v : Json}
    (hus : ∀ u ∈ us, (blockText u ≠ blockText v ∧ (blockText u).dropLast ≠ blockText v) ∧
      blockText u ≠ (blockText v).dropLast ∧ (blockText u).dropLast ≠ (blockText v).dropLast)
    (hends : blockText v = (blockText v).dropLast ++ ['\n'])
    (hunfenced : Frontmatter.Unfenced (blockText v)) :
  (yamlOf (us ++ v :: vs)).RoundTrips v ∧ (yamlOf (us ++ v :: vs)).Trims v
  := by
  have hparse : (yamlOf (us ++ v :: vs)).parse (blockText v) = some v :=
    parse_yamlOf (fun u hu => (hus u hu).1) (Or.inl rfl)
  have htrims : (yamlOf (us ++ v :: vs)).parse (blockText v).dropLast = some v :=
    parse_yamlOf (fun u hu => (hus u hu).2) (Or.inr rfl)
  exact ⟨⟨⟨_, hends⟩, hunfenced, hparse⟩, htrims.trans hparse.symm⟩

theorem roundTrips_firstNote :
  noteYaml.RoundTrips (frontmatterFor firstNote) ∧ noteYaml.Trims (frontmatterFor firstNote)
  := roundTrips_note [] _ nofun (by decide +kernel) (by decide +kernel)

theorem roundTrips_secondNote :
  noteYaml.RoundTrips (frontmatterFor secondNote) ∧ noteYaml.Trims (frontmatterFor secondNote)
  := roundTrips_note [frontmatterFor firstNote] _ (by decide +kernel) (by decide +kernel)
    (by decide +kernel)

theorem roundTrips_otherNote :
  noteYaml.RoundTrips (frontmatterFor otherNote) ∧ noteYaml.Trims (frontmatterFor otherNote)
  := roundTrips_note [frontmatterFor firstNote, frontmatterFor secondNote] _ (by decide +kernel)
    (by decide +kernel) (by decide +kernel)

/-- Two records that are storable on their own are so together. -/
theorem storable_pair {r : MemoryRecord} {h : ([q, r].map MemoryRecord.id).Nodup}
    (hq : Held noteExternals q) (hr : Held noteExternals r)
    (hyq : noteYaml.RoundTrips (frontmatterFor q) ∧ noteYaml.Trims (frontmatterFor q))
    (hyr : noteYaml.RoundTrips (frontmatterFor r) ∧ noteYaml.Trims (frontmatterFor r)) :
  Storable noteExternals noteYaml ⟨[q, r], h⟩ ∧ Trimmable noteYaml ⟨[q, r], h⟩
  := by
  constructor
  · intro x hx
    rcases mem_cons.mp hx with rfl | hx
    · exact ⟨hq, hyq.1⟩
    · obtain rfl := mem_singleton.mp hx
      exact ⟨hr, hyr.1⟩
  intro x hx
  rcases mem_cons.mp hx with rfl | hx
  · exact hyq.2
  · obtain rfl := mem_singleton.mp hx
    exact hyr.2

/-- Notes that are saved, and every load returns them. -/
def twoNotes : MemoryRecords where
  records := [firstNote, otherNote]
  nodup := by decide +kernel

theorem storable_twoNotes :
  Storable noteExternals noteYaml twoNotes ∧ Trimmable noteYaml twoNotes
  := storable_pair (held_note (by decide +kernel)) (held_note (by decide +kernel))
    roundTrips_firstNote roundTrips_otherNote

theorem separate_twoNotes :
  Separate homeLayout initial.memory.managed twoNotes
  := by
  refine ⟨by decide +kernel, by decide +kernel, by decide +kernel, ?_⟩
  intro r hr id file hfile
  cases hfile

theorem loads_saved_notes :
  ∃ s, run (step noteExternals noteYaml homeLayout compare) initial
      [.save twoNotes fun _ => 1767225600000] = some s ∧
    s.Returns noteExternals noteYaml homeLayout [firstNote, otherNote]
  := by
  have hok : Guarded (step noteExternals noteYaml homeLayout compare)
      (Faultless noteExternals noteYaml homeLayout) initial
      [.save twoNotes fun _ => 1767225600000] :=
    ⟨⟨storable_twoNotes.1, storable_twoNotes.2, separate_twoNotes⟩, True.intro⟩
  exact ⟨_, rfl, (loads_saved (fun _ => rfl) hok rfl).1⟩

/-- Two notes whose ids begin with the same twelve characters. -/
def likeNotes : MemoryRecords where
  records := [firstNote, secondNote]
  nodup := by decide +kernel

/-- The service holds two notes that have the same name for their files: they are saved, and a
load returns one of them only. -/
theorem not_loads_saved :
  noteExternals.ReadsTimes ∧ Storable noteExternals noteYaml likeNotes ∧
    ¬ (initial.save noteYaml homeLayout compare likeNotes fun _ => 1767225600000).Returns
      noteExternals noteYaml homeLayout likeNotes.records
  := by
  have hstor : Storable noteExternals noteYaml likeNotes ∧ Trimmable noteYaml likeNotes :=
    storable_pair (held_note (by decide +kernel)) (held_note (by decide +kernel))
      roundTrips_firstNote roundTrips_secondNote
  refine ⟨fun _ => rfl, hstor.1, ?_⟩
  intro hret
  have hlen := (hret _ (Perm.refl _)).length_eq
  revert hlen
  decide +kernel

end Storage.Markdown
