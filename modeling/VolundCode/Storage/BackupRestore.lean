import VolundCode.Storage.BackupHistory

/-!
# Restoring a session

To restore a session, every file is to be as it was before the first batch that changed it. The
store refuses where a file is neither as its newest batch left it nor as it was before the session,
and so where an undone batch has left it at a version between the two. Otherwise it restores the
session (`restores_iff`).
-/

namespace Storage

open List

namespace BackupStore

open Run

variable {B H : Type}

/-! ### What a session has changed -/

namespace Session

/-- The changes of the session with their batches, the newest first. -/
def entries (t : Session B) : List (Batch B × Change B) :=
  t.batches.flatMap fun b => b.changes.map fun c => (b, c)

/-- A batch has changed the file. -/
def touched (t : Session B) (path : String) : Prop :=
  path ∈ t.entries.map fun e => e.2.path

/-- What the newest batch that changed the file left. -/
def newest (t : Session B) (path : String) : Option B :=
  (t.entries.find? fun e => e.2.path = path).map fun e => e.2.after

/-- What the oldest batch that changed the file found. -/
def oldest (t : Session B) (path : String) : Option (Option B) :=
  (t.entries.reverse.find? fun e => e.2.path = path).map fun e => e.2.before

/-- The oldest batch that changed a file found it as it was before the session, and a file that no
batch changed is so. -/
def Begins (files : Files B) (t : Session B) : Prop :=
  ∀ path, t.oldest path = some (files path) ∨ t.oldest path = none ∧ t.files path = files path

/-- The changes of a batch come before those of the older ones. -/
theorem entries_cons (files : Files B) (b : Batch B) (batches : List (Batch B)) :
  entries { files := files, batches := b :: batches } =
    (b.changes.map fun c => (b, c)) ++ entries { files := files, batches := batches }
  := flatMap_cons

/-- No batch is the oldest one that changed a file exactly when none has changed it. -/
theorem oldest_eq_none_iff {t : Session B} {path : String} :
  t.oldest path = none ↔ ¬t.touched path
  := by
  rw [oldest, Option.map_eq_none_iff, List.find?_eq_none, touched, mem_map, not_exists]
  simp

/-- A batch finds the files that are changed for the first time as they were before the session. -/
theorem Begins.mutate {files : Files B} {t : Session B} (h : Begins files t) (createdAt : ℤ)
    (stepId : String) (writes : List (String × B)) :
  Begins files (t.mutate createdAt stepId writes)
  := by
  intro path
  cases writes with
  | nil => exact h path
  | cons w writes =>
  set b : Batch B :=
    { stepId := stepId
      createdAt := createdAt
      changes := changes t.files (w :: writes)
      consumedAt := none } with hb
  have holdest : (t.mutate createdAt stepId (w :: writes)).oldest path =
      (t.oldest path).or ((((b.changes.map fun c => (b, c)).reverse.find? fun e =>
        e.2.path = path)).map fun e => e.2.before) := by
    change (Option.map _ (List.find? _ (entries ⟨_, b :: t.batches⟩).reverse)) = _
    rw [entries_cons, reverse_append, List.find?_append, Option.map_or]
    rfl
  rw [holdest]
  rcases h path with hfound | ⟨hnone, hfile⟩
  · rw [hfound]
    exact Or.inl rfl
  rw [hnone, Option.none_or]
  cases hfind : (b.changes.map fun c => (b, c)).reverse.find? fun e => e.2.path = path with
  | none =>
    right
    use rfl
    rw [← hfile]
    apply write_of_notMem
    rw [← mem_eraseDups, ← changes_paths t.files]
    intro hmem
    obtain ⟨c, hc, hpath⟩ := mem_map.mp hmem
    rw [List.find?_eq_none] at hfind
    apply hfind (b, c)
    · rw [mem_reverse]
      exact mem_map_of_mem hc
    · exact decide_eq_true hpath
  | some e =>
  left
  have hpath := List.find?_some hfind
  have hmem := mem_of_find?_eq_some hfind
  rw [mem_reverse] at hmem
  obtain ⟨c, hc, rfl⟩ := mem_map.mp hmem
  rw [Option.map_some, (mem_changes hc).1, of_decide_eq_true hpath, hfile]

/-- An undone batch leaves what all batches found alone, and the files that none has changed. -/
theorem Begins.undo {files : Files B} {t : Session B} (h : Begins files t)
    (pick : Batch B → Bool) (consumedAt : ℤ) :
  Begins files (t.undo pick consumedAt)
  := by
  rw [Session.undo]
  cases htgt : t.target pick with
  | none => exact h
  | some b =>
  have hb : b ∈ t.batches := mem_of_find?_eq_some htgt
  have hents : ∀ files' : Files B, entries ⟨files', t.batches.map (consume consumedAt b.stepId)⟩ =
        t.entries.map fun e => (consume consumedAt b.stepId e.1, e.2) := by
    intro files'
    simp only [entries, flatMap_map, map_flatMap, map_map]
    apply flatMap_congr
    intro x _
    rw [consume_changes]
    rfl
  intro path
  have holdest : oldest ⟨assign Change.path Change.before t.files b.changes,
      t.batches.map (consume consumedAt b.stepId)⟩ path = t.oldest path := by
    rw [oldest, hents, ← map_reverse, List.find?_map, Option.map_map]
    rfl
  change oldest ⟨_, _⟩ path = _ ∨ oldest ⟨_, _⟩ path = _ ∧ _
  rw [holdest]
  rcases h path with hfound | ⟨hnone, hfile⟩
  · exact Or.inl hfound
  right
  use hnone
  rw [← hfile]
  apply Assign.assign_of_notMem
  intro hmem
  obtain ⟨c, hc, hpath⟩ := mem_map.mp hmem
  apply oldest_eq_none_iff.mp hnone
  rw [touched, mem_map]
  use (b, c)
  use mem_flatMap.mpr ⟨b, hb, mem_map_of_mem hc⟩

/-- In every session, the oldest batch that changed a file found it as it was before. -/
theorem begins_after (files : Files B) (as : List (Action B)) :
  Begins files (after files as)
  := by
  induction as using List.reverseRecOn with
  | nil => exact fun path => Or.inr ⟨rfl, rfl⟩
  | append_singleton as a ih =>
  rw [after, foldl_append]
  cases a with
  | mutate createdAt stepId writes => exact ih.mutate createdAt stepId writes
  | undoStep consumedAt | undoPath path consumedAt => exact ih.undo _ consumedAt

end Session

/-! ### The first and the last record of each file -/

variable [DecidableEq H]

omit [DecidableEq H] in
/-- A list of records has one for each path at most, and those that `find` gives. -/
structure Indexes (m : List (BackupRecord H)) (find : String → Option (BackupRecord H)) :
    Prop where
  nodup : (m.map BackupRecord.path).Nodup
  find : ∀ path, (m.find? fun r => r.path = path) = find path

omit [DecidableEq H] in
/-- A record of the list is the one for its path. -/
theorem Indexes.mem_iff {m : List (BackupRecord H)} {find : String → Option (BackupRecord H)}
    (h : Indexes m find) (r : BackupRecord H) :
  r ∈ m ↔ find r.path = some r
  := by
  rw [← h.find]
  constructor
  · intro hr
    cases hfound : m.find? fun x => x.path = r.path with
    | none =>
      rw [List.find?_eq_none] at hfound
      exact absurd (decide_eq_true rfl) (hfound r hr)
    | some x =>
      have hx := mem_of_find?_eq_some hfound
      have hpath : x.path = r.path := by simpa using List.find?_some hfound
      rw [inj_on_of_nodup_map h.nodup hx hr hpath]
  · exact mem_of_find?_eq_some

omit [DecidableEq H] in
/-- A record for a new path comes to the end. -/
theorem Indexes.snoc {m : List (BackupRecord H)} {find : String → Option (BackupRecord H)}
    (h : Indexes m find) {r : BackupRecord H} (hr : m.any (fun x => x.path = r.path) = false) :
  Indexes (m ++ [r]) fun path => (find path).or (if r.path = path then some r else none)
  := by
  constructor
  · rw [map_append, map_singleton]
    apply h.nodup.append (nodup_singleton _)
    rw [disjoint_singleton]
    intro hmem
    obtain ⟨x, hx, hpath⟩ := mem_map.mp hmem
    rw [any_eq_false] at hr
    exact hr x hx (decide_eq_true hpath)
  · intro path
    rw [List.find?_append, h.find, List.find?_singleton]
    simp only [decide_eq_true_eq]

omit [DecidableEq H] in
/-- A path with a record is one that has been found. -/
theorem Indexes.isSome_of_any {m : List (BackupRecord H)}
    {find : String → Option (BackupRecord H)} (h : Indexes m find) {path : String}
    (hr : m.any (fun x => x.path = path)) :
  (find path).isSome
  := by
  rw [← h.find, List.find?_isSome]
  rw [any_eq_true] at hr
  exact hr

omit [DecidableEq H] in
/-- The latest record of a file is the first one. -/
theorem indexes_latestRecords (records : List (BackupRecord H)) :
  Indexes (latestRecords records) fun path => records.find? fun r => r.path = path
  := by
  induction records using List.reverseRecOn with
  | nil => exact ⟨nodup_nil, fun _ => rfl⟩
  | append_singleton records r ih =>
  have hfind : (fun path => (records ++ [r]).find? fun x => x.path = path) = fun path =>
      (records.find? fun x => x.path = path).or (if r.path = path then some r else none) := by
    funext path
    rw [List.find?_append, List.find?_singleton]
    simp only [decide_eq_true_eq]
  rw [latestRecords, foldl_append, hfind]
  change Indexes (if _ then _ else _) _
  split
  · rename_i hany
    constructor
    · exact ih.nodup
    intro path
    have hsome := ih.isSome_of_any hany
    rw [← latestRecords, ih.find]
    split_ifs with hpath
    · rw [hpath] at hsome
      rw [Option.or_of_isSome hsome]
    · rw [Option.or_none]
  · rename_i hany
    rw [Bool.not_eq_true] at hany
    exact ih.snoc hany

omit [DecidableEq H] in
/-- The original record of a file is the last one. -/
theorem indexes_originalRecords (records : List (BackupRecord H)) :
  Indexes (originalRecords records) fun path => records.reverse.find? fun r => r.path = path
  := by
  induction records using List.reverseRecOn with
  | nil => exact ⟨nodup_nil, fun _ => rfl⟩
  | append_singleton records r ih =>
  have hfind : (fun path => (records ++ [r]).reverse.find? fun x => x.path = path) =
      fun path => if r.path = path then some r
        else records.reverse.find? fun x => x.path = path := by
    funext path
    rw [reverse_append, reverse_singleton, singleton_append, List.find?_cons]
    split_ifs with hpath
    · rw [decide_eq_true hpath]
    · rw [decide_eq_false hpath]
  rw [originalRecords, foldl_append, hfind]
  change Indexes (if _ then _ else _) _
  split
  · rename_i hany
    have hpaths : ∀ x : BackupRecord H, (if x.path = r.path then r else x).path = x.path := by
      intro x
      split_ifs with hx
      · rw [hx]
      · rfl
    constructor
    · rw [map_map]
      have hcomp : (BackupRecord.path ∘ fun x => if x.path = r.path then r else x) =
          BackupRecord.path := funext hpaths
      rw [hcomp]
      exact ih.nodup
    intro path
    have hsome := ih.isSome_of_any hany
    have hcomp : ((fun x : BackupRecord H => decide (x.path = path)) ∘ fun x =>
        if x.path = r.path then r else x) = fun x => decide (x.path = path) := by
      funext x
      rw [Function.comp_apply, hpaths]
    rw [List.find?_map, hcomp, ← originalRecords, ih.find]
    split_ifs with hpath
    · subst hpath
      obtain ⟨x, hx⟩ := Option.isSome_iff_exists.mp hsome
      have hxpath : x.path = r.path := by simpa using List.find?_some hx
      rw [hx, Option.map_some, if_pos hxpath]
    cases hx : records.reverse.find? fun x => x.path = path with
    | none => rfl
    | some x =>
    have hxpath : x.path = path := by simpa using List.find?_some hx
    rw [Option.map_some, if_neg]
    rw [hxpath]
    exact fun h => hpath h.symm
  rename_i hany
  rw [Bool.not_eq_true] at hany
  have hsnoc := ih.snoc hany
  have hnone : ∀ path, r.path = path → (records.reverse.find? fun x => x.path = path) = none := by
    rintro path rfl
    rw [← ih.find, List.find?_eq_none]
    rw [any_eq_false] at hany
    exact hany
  constructor
  · exact hsnoc.nodup
  intro path
  have hpath := hsnoc.find path
  rw [← originalRecords, hpath]
  split_ifs with heq
  · rw [hnone path heq]
    rfl
  · rw [Option.or_none]

/-! ### Restoring -/

/-- The session is restored: there are no conflicts, and afterwards all files that were changed are
as they were before. -/
def Restores (d : Digest B H) (files : Files B) (t : Session B) (s : State B H) : Prop :=
  ∃ result s', restore d false s = some (result, s') ∧ result.conflicts = [] ∧
    ∀ path, t.touched path → s'.files path = files path

omit [DecidableEq H] in
/-- The records of a session are those of its changes. -/
theorem Reflects.records_eq {d : Digest B H} {t : Session B} {s : State B H} (h : Reflects d t s) :
  s.manifest.getD [] = t.entries.map fun e => e.1.record d e.2
  := by
  rw [h.records, Session.entries, map_flatMap]
  apply flatMap_congr
  intro b _
  rw [map_map]
  rfl

/-- A file is in conflict unless it is as the newest batch left it or as the oldest one found it. -/
theorem conflicted_eq_false_iff {d : Digest B H} {files : Files B}
    {originals : List (BackupRecord H)} {b b₀ : Batch B} {c c₀ : Change B}
    (h : (originals.find? fun r => r.path = c.path) = some (b₀.record d c₀)) :
  conflicted d files originals (b.record d c) = false ↔
    files c.path = some c.after ∨ files c.path = c₀.before
  := by
  have hfind : (originals.find? fun r => r.path = (b.record d c).path) = some (b₀.record d c₀) := h
  rw [conflicted, hfind]
  cases hfile : files c.path with
  | none =>
    have hnone : files (b.record d c).path = none := hfile
    simp only [hnone]
    change c₀.before.isSome = false ↔ _
    cases c₀.before with
    | none | some bytes => simp
  | some bytes =>
  have hsome : files (b.record d c).path = some bytes := hfile
  simp only [hsome]
  change decide (d.sourceHash bytes ≠ d.sourceHash c.after ∧
    some (d.sourceHash bytes) ≠ c₀.before.map d.sourceHash) = false ↔ _
  rw [decide_eq_false_iff_not, not_and_or, not_not, not_not, d.injective.eq_iff,
    ← Option.map_some, (Option.map_injective d.injective).eq_iff, Option.some.injEq]

omit [DecidableEq H] in
/-- Where the backups are there, the records are restored in turn. -/
theorem foldlM_restoreRecord {objects : H → Option B} {records : List (BackupRecord H)}
    (h : ∀ r ∈ records, ∀ files, restoreRecord objects files r =
      some (Function.update files r.path (r.backupPath.bind objects))) (files : Files B) :
  records.foldlM (restoreRecord objects) files =
    some (assign BackupRecord.path (fun r => r.backupPath.bind objects) files records)
  := by
  induction records generalizing files with
  | nil => rfl
  | cons r records ih =>
    rw [foldlM_cons, h r mem_cons_self, Option.bind_eq_bind, Option.bind_some,
      ih fun x hx => h x (mem_cons_of_mem r hx), Assign.assign_cons]

section Reflected

variable {d : Digest B H} {files : Files B} {t : Session B} {s : State B H}

omit [DecidableEq H] in
/-- The original record of a file is that of the oldest change. -/
theorem Reflects.original (h : Reflects d t s) (hbegins : t.Begins files) {path : String}
    (hpath : t.touched path) :
  ∃ e ∈ t.entries, ((originalRecords (s.manifest.getD [])).find? fun r => r.path = path) =
    some (e.1.record d e.2) ∧ e.2.before = files path
  := by
  rcases hbegins path with holdest | ⟨hnone, -⟩
  · obtain ⟨e, he, hpre⟩ := Option.map_eq_some_iff.mp holdest
    use e, mem_reverse.mp (mem_of_find?_eq_some he)
    rw [(indexes_originalRecords _).find, h.records_eq, ← map_reverse, List.find?_map]
    constructor
    · change (t.entries.reverse.find? fun e => e.2.path = path).map _ = _
      rw [he]
      rfl
    · exact hpre
  · exact absurd hpath (Session.oldest_eq_none_iff.mp hnone)

omit [DecidableEq H] in
/-- The latest records are those of the newest changes. -/
theorem Reflects.mem_latestRecords (h : Reflects d t s) (r : BackupRecord H) :
  r ∈ latestRecords (s.manifest.getD []) ↔
    ∃ e, (t.entries.find? fun e => e.2.path = r.path) = some e ∧ e.1.record d e.2 = r
  := by
  rw [(indexes_latestRecords _).mem_iff, h.records_eq, List.find?_map, Option.map_eq_some_iff]
  rfl

/-- No file is in conflict exactly when each one that was changed is as its newest batch left it,
or as it was before the session. -/
theorem Reflects.no_conflicts_iff (h : Reflects d t s) (hbegins : t.Begins files) :
  (latestRecords (s.manifest.getD [])).filter
      (conflicted d s.files (originalRecords (s.manifest.getD []))) = [] ↔
    ∀ path, t.touched path → s.files path = t.newest path ∨ s.files path = files path
  := by
  have hfile : ∀ e ∈ t.entries, conflicted d s.files (originalRecords (s.manifest.getD []))
      (e.1.record d e.2) = false ↔
        s.files e.2.path = some e.2.after ∨ s.files e.2.path = files e.2.path := by
    intro e he
    obtain ⟨e₀, -, horig, hpre⟩ := h.original hbegins (mem_map_of_mem he)
    rw [conflicted_eq_false_iff horig, hpre]
  rw [filter_eq_nil_iff]
  constructor
  · intro hall path hpath
    cases hnewest : t.entries.find? fun e => e.2.path = path with
    | none =>
      obtain ⟨e, he, heq⟩ := mem_map.mp hpath
      rw [List.find?_eq_none] at hnewest
      exact absurd (decide_eq_true heq) (hnewest e he)
    | some e =>
    have he := mem_of_find?_eq_some hnewest
    have heq : e.2.path = path := by simpa using List.find?_some hnewest
    have hlast : e.1.record d e.2 ∈ latestRecords (s.manifest.getD []) := by
      rw [h.mem_latestRecords]
      use e
      constructor
      · rw [← hnewest, ← heq]
        rfl
      · rfl
    have hfree := hall _ hlast
    rw [Bool.not_eq_true, hfile e he, heq] at hfree
    rw [Session.newest, hnewest]
    exact hfree
  intro hall r hr
  obtain ⟨e, hfind, rfl⟩ := (h.mem_latestRecords r).mp hr
  have he := mem_of_find?_eq_some hfind
  have hfree := hall e.2.path (mem_map_of_mem he)
  have hnewest : t.newest e.2.path = some e.2.after := by
    change Option.map _ (t.entries.find? fun x => x.2.path = (e.1.record d e.2).path) = _
    rw [hfind]
    rfl
  rw [hnewest] at hfree
  rw [Bool.not_eq_true, hfile e he]
  exact hfree

omit [DecidableEq H] in
/-- The original records can be restored, and the files that were changed are as they were before
the session. -/
theorem Reflects.restored (h : Reflects d t s) (hbegins : t.Begins files) :
  ∃ files', (originalRecords (s.manifest.getD [])).reverse.foldlM (restoreRecord s.objects)
      s.files = some files' ∧ ∀ path, t.touched path → files' path = files path
  := by
  have hback : ∀ e ∈ t.entries, (e.1.record d e.2).backupPath.bind s.objects = e.2.before := by
    intro e he
    obtain ⟨b, hb, hmem⟩ := mem_flatMap.mp he
    obtain ⟨c, hc, rfl⟩ := mem_map.mp hmem
    cases hpre : c.before with
    | none => simp [Batch.record, hpre]
    | some bytes => simp [Batch.record, hpre, h.backups b hb c hc bytes hpre]
  have hindexes := indexes_originalRecords (s.manifest.getD [])
  have hrec : ∀ r ∈ (originalRecords (s.manifest.getD [])).reverse, ∀ files',
      restoreRecord s.objects files' r =
        some (Function.update files' r.path (r.backupPath.bind s.objects)) := by
    intro r hr files'
    rw [mem_reverse, hindexes.mem_iff] at hr
    have hmem := mem_of_find?_eq_some hr
    rw [mem_reverse, h.records_eq] at hmem
    obtain ⟨e, he, rfl⟩ := mem_map.mp hmem
    rw [hback e he]
    cases hpre : e.2.before with
    | none => simp [restoreRecord, Batch.record, hpre]
    | some bytes =>
      have hobj := hback e he
      simp only [Batch.record, hpre, Option.map_some, Option.bind_some] at hobj
      simp [restoreRecord, Batch.record, hpre, hobj]
  refine ⟨_, foldlM_restoreRecord hrec s.files, ?_⟩
  intro path hpath
  obtain ⟨e, he, horig, hpre⟩ := h.original hbegins hpath
  have hr := mem_of_find?_eq_some horig
  have heq : (e.1.record d e.2).path = path := by simpa using List.find?_some horig
  rw [← heq, Assign.assign_of_mem]
  · rw [hback e he, hpre, heq]
  · rw [map_reverse, nodup_reverse]
    exact hindexes.nodup
  · exact mem_reverse.mpr hr

end Reflected

/-- The session can be restored exactly when every file that was changed is as its newest batch
left it, or as it was before the session. -/
theorem restores_iff
    (d : Digest B H) (files : Files B) (as : List (Action B)) (s : State B H)
    (hrun : run (step d) (State.fresh files) as = some s) :
  Restores d files (Session.after files as) s ↔ ∀ path, (Session.after files as).touched path →
      s.files path = (Session.after files as).newest path ∨ s.files path = files path
  := by
  have h := run_reflects hrun
  have hbegins := Session.begins_after files as
  rw [← h.no_conflicts_iff hbegins]
  obtain ⟨files', hfold, hfiles'⟩ := h.restored hbegins
  cases hman : s.manifest with
  | none =>
    have huntouched : ∀ path, ¬(Session.after files as).touched path := by
      intro path hpath
      have hrecs := h.records_eq
      rw [hman, Option.getD_none, eq_comm, map_eq_nil_iff] at hrecs
      rw [Session.touched, hrecs] at hpath
      cases hpath
    constructor
    · intro _
      rfl
    · intro _
      rw [Restores, restore, hman]
      exact ⟨_, _, rfl, rfl, fun path hpath => absurd hpath (huntouched path)⟩
  | some records =>
  rw [hman, Option.getD_some] at hfold
  rw [Option.getD_some, Restores, restore, hman]
  simp only [ne_eq, map_eq_nil_iff]
  by_cases hconfl : (latestRecords records).filter
      (conflicted d s.files (originalRecords records)) = []
  · rw [if_neg (not_not.mpr hconfl), if_neg (by decide), hfold]
    constructor
    · intro _
      exact hconfl
    · intro _
      exact ⟨_, _, rfl, rfl, hfiles'⟩
  rw [if_pos hconfl]
  constructor
  · rintro ⟨result, s', heq, hnone, -⟩
    cases heq
    exact map_eq_nil_iff.mp hnone
  · intro hnone
    exact absurd hnone hconfl

/-- Two batches that change a file, of which the newer one is undone. -/
def undoneRun : List (Action ℕ) :=
  [.mutate 1 "1" [("a", 1)], .mutate 2 "2" [("a", 2)], .undoStep 3]

/-- Digests that tell the numbers apart which stand for files. -/
def numbered : Digest ℕ ℕ where
  sourceHash := id
  injective := Function.injective_id

/-- Where a batch is undone but not the one before it, the session cannot be restored. -/
theorem not_restores_undone :
  ¬ ∀ (as : List (Action ℕ)) (s : State ℕ ℕ),
    run (step numbered) (State.fresh fun _ => some 0) as = some s →
      Restores numbered (fun _ => some 0) (Session.after (fun _ => some 0) as) s
  := by
  intro h
  have hrun : ((run (step numbered) (State.fresh fun _ => some 0) undoneRun).bind fun s =>
      (restore numbered false s).map fun r => r.1.conflicts) = some ["a"] := by
    decide +kernel
  obtain ⟨s, hs, hconfl⟩ := Option.bind_eq_some_iff.mp hrun
  obtain ⟨result, s', heq, hnone, -⟩ := h undoneRun s hs
  rw [heq, Option.map_some, hnone] at hconfl
  cases hconfl

theorem restores_iff_undone :
  ∃ s, run (step numbered) (State.fresh fun _ => some 0) undoneRun = some s ∧
    (Restores numbered (fun _ => some 0) (Session.after (fun _ => some 0) undoneRun) s ↔
      ∀ path, (Session.after (fun _ => some 0) undoneRun).touched path →
        s.files path = (Session.after (fun _ => some 0) undoneRun).newest path ∨
          s.files path = some 0)
  := by
  have hsome : (run (step numbered) (State.fresh fun _ => some 0) undoneRun).isSome := by
    decide +kernel
  obtain ⟨s, hs⟩ := Option.isSome_iff_exists.mp hsome
  exact ⟨s, hs, restores_iff numbered (fun _ => some 0) undoneRun s hs⟩

end BackupStore

end Storage
