import VolundCode.Lib.Assign
import VolundCode.Storage.Backup

/-!
# What backups are for

A session as it is meant is a list of batches, each with what it found and what it left in its
files. To undo a batch is to put back what it found. The store does the same with its records and
objects, in every run (`run_reflects`).
-/

namespace Storage

open List

namespace BackupStore

open Run

variable {B H : Type}

/-! ### Sessions as they are meant -/

/-- What a batch did to a file. -/
structure Change (B : Type) where
  path : String
  before : Option B
  after : B
deriving DecidableEq

structure Batch (B : Type) where
  stepId : String
  createdAt : ℤ
  changes : List (Change B)
  consumedAt : Option ℤ
deriving DecidableEq

/-- The files, and the batches of the session that changed any, the newest first. -/
structure Session (B : Type) where
  files : Files B
  batches : List (Batch B)

namespace Session

/-- Before the first batch. -/
def start (files : Files B) : Session B where
  files := files
  batches := []

/-- What some writes do to files. -/
def changes (files : Files B) (writes : List (String × B)) : List (Change B) :=
  (writes.map Prod.fst).eraseDups.filterMap fun path =>
    (write files writes path).map fun bytes =>
      { path := path, before := files path, after := bytes }

/-- The files are written. -/
def mutate (createdAt : ℤ) (stepId : String) (writes : List (String × B)) (t : Session B) :
    Session B where
  files := write t.files writes
  batches :=
    if writes.isEmpty then t.batches
    else
      { stepId := stepId
        createdAt := createdAt
        changes := changes t.files writes
        consumedAt := none } :: t.batches

/-- The newest batch that is not consumed and of which `pick` holds. -/
def target (pick : Batch B → Bool) (t : Session B) : Option (Batch B) :=
  t.batches.find? fun b => b.consumedAt.isNone && pick b

/-- The batch with this id is consumed. -/
def consume (consumedAt : ℤ) (stepId : String) (b : Batch B) : Batch B :=
  if b.stepId = stepId then { b with consumedAt := some consumedAt } else b

/-- The newest batch of which `pick` holds is undone: its files are as it found them. -/
def undo (pick : Batch B → Bool) (consumedAt : ℤ) (t : Session B) : Session B :=
  match t.target pick with
  | none => t
  | some b =>
    { files := assign Change.path Change.before t.files b.changes
      batches := t.batches.map (consume consumedAt b.stepId) }

end Session

/-- The batch changed the file. -/
def Batch.touches (path : String) (b : Batch B) : Bool :=
  b.changes.any fun c => c.path = path

/-! ### The records of a batch -/

/-- The record of a change. -/
def Batch.record (d : Digest B H) (b : Batch B) (c : Change B) : BackupRecord H where
  path := c.path
  existed := c.before.isSome
  beforeHash := c.before.map d.sourceHash
  afterHash := d.sourceHash c.after
  backupPath := c.before.map d.sourceHash
  createdAt := b.createdAt
  stepId := some b.stepId
  consumedAt := b.consumedAt

/-- The records of a batch. -/
def Batch.records (d : Digest B H) (b : Batch B) : List (BackupRecord H) :=
  b.changes.map (b.record d)

/-- Every batch changed a file, and none twice, and no two batches have the same id. -/
structure Session.WellFormed (t : Session B) : Prop where
  nonempty : ∀ b ∈ t.batches, b.changes ≠ []
  paths : ∀ b ∈ t.batches, (b.changes.map Change.path).Nodup
  distinct : (t.batches.map Batch.stepId).Nodup

/-- The store holds what is needed to undo every batch of the session. -/
structure Reflects (d : Digest B H) (t : Session B) (s : State B H) : Prop where
  wellFormed : t.WellFormed
  files : s.files = t.files
  records : s.manifest.getD [] = t.batches.flatMap (Batch.records d)
  backups : ∀ b ∈ t.batches, ∀ c ∈ b.changes, ∀ bytes, c.before = some bytes →
    s.objects (d.sourceHash bytes) = some bytes
  named : ∀ name bytes, s.objects name = some bytes → d.sourceHash bytes = name

theorem Reflects.fresh (d : Digest B H) (files : Files B) :
  Reflects d (Session.start files) (State.fresh files)
  where
    wellFormed := ⟨by simp [Session.start], by simp [Session.start], nodup_nil⟩
    files := rfl
    records := rfl
    backups := by simp [Session.start]
    named := by simp [State.fresh]

/-! ### A batch is recorded -/

/-- The elements of a list without repetitions are distinct. -/
theorem nodup_eraseDups {α : Type} [DecidableEq α] (l : List α) :
  l.eraseDups.Nodup
  := by
  induction hn : l.length using Nat.strong_induction_on generalizing l with
  | _ n ih =>
  cases l with
  | nil => exact nodup_nil
  | cons a l =>
  have hlen : (l.filter fun b => !b == a).length < n := by
    rw [← hn, length_cons]
    exact Nat.lt_succ_of_le (length_filter_le _ _)
  rw [eraseDups_cons, nodup_cons]
  constructor
  · simp
  · exact ih _ hlen _ rfl

variable {writes : List (String × B)}

/-- What is written to a file is there. -/
theorem write_of_mem (files : Files B) {path : String} (h : path ∈ writes.map Prod.fst) :
  ∃ bytes, write files writes path = some bytes
  := by
  have hwrote : ∃ w ∈ writes, w.1 = path ∧
      assign Prod.fst (fun w : String × B => some w.2) files writes path = some w.2 :=
    Assign.exists_of_mem h
  obtain ⟨w, -, -, hw⟩ := hwrote
  exact ⟨w.2, hw⟩

variable {files : Files B}

/-- Files to which nothing is written stay as they are. -/
theorem write_of_notMem {path : String} (h : path ∉ writes.map Prod.fst) :
  write files writes path = files path
  := Assign.assign_of_notMem h

/-- The files that are changed are those that are written. -/
theorem Session.changes_paths (files : Files B) (writes : List (String × B)) :
  (changes files writes).map Change.path = (writes.map Prod.fst).eraseDups
  := by
  have hall : ∀ path ∈ (writes.map Prod.fst).eraseDups, ((write files writes path).map fun bytes =>
        ({ path := path, before := files path, after := bytes } : Change B)).map Change.path =
          some path := by
    intro path hpath
    obtain ⟨bytes, hbytes⟩ := write_of_mem files (mem_eraseDups.mp hpath)
    rw [hbytes]
    rfl
  rw [changes, map_filterMap, filterMap_congr hall, filterMap_some]

/-- What a change found and what it left. -/
theorem Session.mem_changes {c : Change B} (h : c ∈ changes files writes) :
  c.before = files c.path ∧ write files writes c.path = some c.after
  := by
  obtain ⟨path, -, hc⟩ := mem_filterMap.mp h
  obtain ⟨bytes, hbytes, rfl⟩ := Option.map_eq_some_iff.mp hc
  exact ⟨rfl, hbytes⟩

/-- Where two computations agree on the elements of a list, they do on the list. -/
theorem mapM_eq_some {α β γ : Type} {f : α → Option β} {g : α → Option γ} {h : β → γ} {l : List α}
    (hl : ∀ x ∈ l, ∃ y, f x = some y ∧ g x = some (h y)) :
  l.mapM g = some ((l.filterMap f).map h)
  := by
  induction l with
  | nil => rfl
  | cons x l ih =>
    obtain ⟨y, hf, hg⟩ := hl x mem_cons_self
    rw [mapM_cons, hg, ih fun z hz => hl z (mem_cons_of_mem x hz), filterMap_cons_some hf]
    rfl

variable {d : Digest B H}

/-- The records of a batch tell what it did. -/
theorem records_of_captures
    {createdAt : ℤ} {stepId : String} :
  (((writes.map Prod.fst).eraseDups.map (capture d files)).mapM
      (recordOf d (write files writes) createdAt stepId)) =
    some (Batch.records d
      { stepId := stepId
        createdAt := createdAt
        changes := Session.changes files writes
        consumedAt := none })
  := by
  rw [List.mapM_map, Session.changes]
  apply mapM_eq_some
  intro path hpath
  obtain ⟨bytes, hbytes⟩ := write_of_mem files (mem_eraseDups.mp hpath)
  use { path := path, before := files path, after := bytes }
  cases hfile : files path with
  | none | some before => simp [hbytes, recordOf, capture, hfile, Batch.record]

section Objects

variable [DecidableEq H] {d : Digest B H} {files : Files B} {objects : H → Option B}

/-- Objects that are named by their digests, with all of `objects` and the files at `paths`. -/
structure Copied (d : Digest B H) (files : Files B) (objects : H → Option B) (paths : List String)
    (copied : H → Option B) : Prop where
  named : ∀ name bytes, copied name = some bytes → d.sourceHash bytes = name
  kept : ∀ name bytes, objects name = some bytes → copied name = some bytes
  added : ∀ path ∈ paths, ∀ bytes, files path = some bytes →
    copied (d.sourceHash bytes) = some bytes

/-- A copy of one more file. -/
theorem Copied.snoc {paths : List String} {copied : H → Option B} {path : String}
    (h : Copied d files objects paths copied) :
  Copied d files objects (paths ++ [path]) (copyObject d files copied path)
  := by
  have hkept : ∀ name bytes, copied name = some bytes →
      copyObject d files copied path name = some bytes := by
    intro name bytes hname
    cases hfile : files path with
    | none => simp only [copyObject, hfile, hname]
    | some b =>
    simp only [copyObject, hfile]
    split_ifs with hnone
    · rw [Function.update_of_ne, hname]
      rintro rfl
      simp [hname] at hnone
    · exact hname
  constructor
  · intro name bytes hname
    cases hfile : files path with
    | none =>
      simp only [copyObject, hfile] at hname
      exact h.named name bytes hname
    | some b =>
    simp only [copyObject, hfile] at hname
    split_ifs at hname
    · rw [Function.update_apply] at hname
      split_ifs at hname with heq
      · rw [heq, ← Option.some.inj hname]
      · exact h.named name bytes hname
    · exact h.named name bytes hname
  · intro name bytes hname
    exact hkept name bytes (h.kept name bytes hname)
  intro path' hpath' bytes hbytes
  rcases mem_append.mp hpath' with hold | hnew
  · exact hkept _ _ (h.added path' hold bytes hbytes)
  obtain rfl := mem_singleton.mp hnew
  simp only [copyObject, hbytes]
  cases hobj : copied (d.sourceHash bytes) with
  | none => simp
  | some b =>
    have hb : b = bytes := d.injective (h.named _ _ hobj)
    simp [hobj, hb]

/-- Copies of the files. -/
theorem copied_foldl (files : Files B) (hnamed : ∀ name bytes, objects name = some bytes → d.sourceHash bytes = name)
    (paths : List String) :
  Copied d files objects paths (paths.foldl (copyObject d files) objects)
  := by
  induction paths using List.reverseRecOn with
  | nil => exact ⟨hnamed, fun _ _ h => h, by simp⟩
  | append_singleton paths path ih =>
    rw [foldl_append]
    exact ih.snoc

end Objects

variable [DecidableEq H]

variable {t : Session B} {s : State B H}

/-- A batch that is committed is as it is meant. -/
theorem Reflects.mutate {s' : State B H} {createdAt : ℤ} {stepId : String} (h : Reflects d t s)
    (hfresh : ∀ r ∈ s.manifest.getD [], r.stepId ≠ some stepId)
    (hs : BackupStore.mutate d createdAt stepId writes s = some s') :
  Reflects d (t.mutate createdAt stepId writes) s'
  := by
  have hcopied := copied_foldl s.files h.named (writes.map Prod.fst).eraseDups
  simp only [BackupStore.mutate, prepare, commit, records_of_captures, Option.map_some,
    Option.some.injEq] at hs
  subst hs
  cases writes with
  | nil =>
    exact ⟨h.wellFormed, h.files, h.records, fun b hb c hc bytes hbytes =>
      hcopied.kept _ _ (h.backups b hb c hc bytes hbytes), hcopied.named⟩
  | cons w writes =>
  set b : Batch B :=
    { stepId := stepId
      createdAt := createdAt
      changes := Session.changes s.files (w :: writes)
      consumedAt := none } with hb
  have hbatch : (t.mutate createdAt stepId (w :: writes)).batches = b :: t.batches := by
    rw [hb, h.files]
    rfl
  have hpaths : b.changes.map Change.path = ((w :: writes).map Prod.fst).eraseDups :=
    Session.changes_paths _ _
  have hne : b.changes ≠ [] := by
    intro hnil
    rw [hnil] at hpaths
    have hw : w.1 ∈ ((w :: writes).map Prod.fst).eraseDups := mem_eraseDups.mpr mem_cons_self
    rw [← hpaths] at hw
    cases hw
  constructor
  · constructor
    · rw [hbatch, forall_mem_cons]
      exact ⟨hne, h.wellFormed.nonempty⟩
    · rw [hbatch, forall_mem_cons, hpaths]
      exact ⟨nodup_eraseDups _, h.wellFormed.paths⟩
    rw [hbatch, map_cons, nodup_cons]
    use ?_, h.wellFormed.distinct
    intro hmem
    obtain ⟨b', hb', hid⟩ := mem_map.mp hmem
    obtain ⟨c, cs, hc⟩ := exists_cons_of_ne_nil (h.wellFormed.nonempty b' hb')
    apply hfresh (b'.record d c)
    · rw [h.records, mem_flatMap]
      exact ⟨b', hb', mem_map_of_mem (by simp [hc])⟩
    · rw [Batch.record, hid]
  · rw [Session.mutate, ← h.files]
    rfl
  · rw [hbatch, flatMap_cons, ← h.records]
    rfl
  · rw [hbatch, forall_mem_cons]
    constructor
    · intro c hc bytes hbytes
      rw [(Session.mem_changes hc).1] at hbytes
      apply hcopied.added c.path _ bytes hbytes
      rw [← hpaths]
      exact mem_map_of_mem hc
    · intro b' hb' c hc bytes hbytes
      exact hcopied.kept _ _ (h.backups b' hb' c hc bytes hbytes)
  · exact hcopied.named

/-! ### A batch is undone -/

omit [DecidableEq H] in
/-- The records of a session fall apart into those of its batches. -/
theorem Session.WellFormed.undoStepsOf_records (h : t.WellFormed) (d : Digest B H) :
  undoStepsOf (t.batches.flatMap (Batch.records d)) = t.batches.map (Batch.records d)
  := by
  have hkey : ∀ b : Batch B, ∀ r ∈ b.records d, r.key = .inl b.stepId := by
    intro b r hr
    obtain ⟨c, -, rfl⟩ := mem_map.mp hr
    rfl
  have hne : ∀ b ∈ t.batches, b.records d ≠ [] := by
    intro b hb
    rw [Batch.records, Ne, map_eq_nil_iff]
    exact h.nonempty b hb
  rw [undoStepsOf, flatMap_def]
  apply splitBy_flatten
  · intro hnil
    obtain ⟨b, hb, heq⟩ := mem_map.mp hnil
    exact hne b hb heq
  · intro m hm
    obtain ⟨b, -, rfl⟩ := mem_map.mp hm
    apply List.Pairwise.isChain
    apply pairwise_of_forall_mem_list
    intro r hr r' hr'
    rw [hkey b r hr, hkey b r' hr', decide_eq_true rfl]
  apply List.Pairwise.isChain
  rw [pairwise_map]
  have hdist := pairwise_map.mp h.distinct
  apply List.Pairwise.imp_of_mem _ hdist
  intro b b' hb hb' hid
  use hne b hb, hne b' hb'
  rw [hkey b _ (getLast_mem _), hkey b' _ (head_mem _), decide_eq_false_iff_not]
  intro heq
  exact hid (Sum.inl.inj heq)

omit [DecidableEq H] in
/-- The batch that is undone is the one that is meant. -/
theorem Reflects.undoTarget (h : Reflects d t s)
    {pick : List (BackupRecord H) → Bool} {pick' : Batch B → Bool}
    (hpick : ∀ b, pick (b.records d) = pick' b) :
  BackupStore.undoTarget pick s = (t.target pick').map (Batch.records d)
  := by
  rw [BackupStore.undoTarget, h.records, h.wellFormed.undoStepsOf_records, List.find?_map,
    Session.target]
  congr 1
  apply List.find?_congr
  intro b hb
  obtain ⟨c, cs, hc⟩ := exists_cons_of_ne_nil (h.wellFormed.nonempty b hb)
  rw [Function.comp_apply, hpick]
  congr 1
  rw [Batch.records, hc, Bool.eq_iff_iff, all_eq_true]
  constructor
  · intro hall
    exact hall (b.record d c) (by simp)
  · intro hb r hr
    obtain ⟨c', -, rfl⟩ := mem_map.mp hr
    exact hb

/-- The files of a batch whose backups are there are put back. -/
theorem undo_files {objects : H → Option B} (b : Batch B) {cs : List (Change B)}
    (hcs : ∀ c ∈ cs, ∀ bytes, c.before = some bytes → objects (d.sourceHash bytes) = some bytes)
    (warnings : List UndoStepWarning) (files : Files B) :
  ((cs.map (b.record d)).foldl (undoTurn d objects) (warnings, files)).2 =
    assign Change.path Change.before files cs
  := by
  induction cs generalizing warnings files with
  | nil => rfl
  | cons c cs ih =>
  have hundo : undoRecord objects files (b.record d c) = Function.update files c.path c.before := by
    cases hpre : c.before with
    | none => simp [undoRecord, Batch.record, hpre]
    | some bytes =>
      simp [undoRecord, Batch.record, hpre, hcs c mem_cons_self bytes hpre]
  rw [map_cons, foldl_cons, undoTurn, hundo, ih fun c' hc' => hcs c' (mem_cons_of_mem c hc')]
  rfl

/-- The records of a batch are marked exactly when it is the one that is consumed. -/
theorem consume_record (h : t.WellFormed) {b b' : Batch B}
    (hb : b ∈ t.batches) (hopen : b.consumedAt = none) (hb' : b' ∈ t.batches) (consumedAt : ℤ)
    {c : Change B} (hc : c ∈ b'.changes) :
  consume consumedAt (b.records d) (b'.record d c) =
    (Session.consume consumedAt b.stepId b').record d c
  := by
  rw [consume, Session.consume]
  by_cases hid : b'.stepId = b.stepId
  · obtain rfl : b' = b := inj_on_of_nodup_map h.distinct hb' hb hid
    have hmem : undoRecordKey (b'.record d c) ∈ (b'.records d).map undoRecordKey :=
      mem_map_of_mem (mem_map_of_mem hc)
    rw [if_pos hid, if_pos]
    · rfl
    · rw [Bool.and_eq_true, contains_iff_mem]
      use by simp [Batch.record, hopen]
  rw [if_neg hid, if_neg]
  rw [Bool.and_eq_true, contains_iff_mem, not_and]
  intro _ hmem
  obtain ⟨r, hr, heq⟩ := mem_map.mp hmem
  obtain ⟨c', -, rfl⟩ := mem_map.mp hr
  simp only [undoRecordKey, Batch.record, Option.getD_some, Prod.mk.injEq] at heq
  exact hid heq.2.2.1.symm

@[simp]
theorem Session.consume_changes (consumedAt : ℤ) (stepId : String) (b : Batch B) :
  (consume consumedAt stepId b).changes = b.changes
  := by
  rw [consume]
  split_ifs
  · rfl
  · rfl

@[simp]
theorem Session.consume_stepId (consumedAt : ℤ) (stepId : String) (b : Batch B) :
  (consume consumedAt stepId b).stepId = b.stepId
  := by
  rw [consume]
  split_ifs
  · rfl
  · rfl

/-- An undone batch leaves the session well formed. -/
theorem Session.WellFormed.undo (h : t.WellFormed) (pick : Batch B → Bool) (consumedAt : ℤ) :
  (t.undo pick consumedAt).WellFormed
  := by
  rw [Session.undo]
  cases t.target pick with
  | none => exact h
  | some b =>
  constructor
  · simp only [forall_mem_map, consume_changes]
    exact h.nonempty
  · simp only [forall_mem_map, consume_changes]
    exact h.paths
  have hids : t.batches.map (Batch.stepId ∘ Session.consume consumedAt b.stepId) =
      t.batches.map Batch.stepId :=
    map_congr_left fun x _ => consume_stepId consumedAt b.stepId x
  rw [map_map, hids]
  exact h.distinct

/-- A batch that is undone is undone as it is meant. -/
theorem Reflects.undo (h : Reflects d t s)
    {pick : List (BackupRecord H) → Bool} {pick' : Batch B → Bool}
    (hpick : ∀ b, pick (b.records d) = pick' b) (consumedAt : ℤ) :
  Reflects d (t.undo pick' consumedAt) (undoPicked d pick consumedAt s).2
  := by
  rw [undoPicked, h.undoTarget hpick, Session.undo]
  cases htgt : t.target pick' with
  | none => exact h
  | some b =>
  have hb : b ∈ t.batches := mem_of_find?_eq_some htgt
  have hopen : b.consumedAt = none := by
    have hfound := List.find?_some htgt
    simp only [Bool.and_eq_true, Option.isNone_iff_eq_none] at hfound
    exact hfound.1
  have hwellFormed := h.wellFormed.undo pick' consumedAt
  rw [Session.undo, htgt] at hwellFormed
  use hwellFormed
  · rw [← h.files]
    exact undo_files b (h.backups b hb) [] s.files
  · have hrecs : ∀ x ∈ t.batches, (x.records d).map (consume consumedAt (b.records d)) =
        (Session.consume consumedAt b.stepId x).records d := by
      intro x hx
      change (x.changes.map (x.record d)).map _ =
        (Session.consume consumedAt b.stepId x).changes.map _
      rw [map_map, Session.consume_changes]
      apply map_congr_left
      intro c hc
      exact consume_record h.wellFormed hb hopen hx consumedAt hc
    have hman := h.records
    simp only [Option.map_some, consumeUndoStep, markConsumed]
    cases hm : s.manifest with
    | none =>
      rw [hm, Option.getD_none, eq_comm, flatMap_eq_nil_iff] at hman
      have hnil := hman b hb
      rw [Batch.records, map_eq_nil_iff] at hnil
      exact absurd hnil (h.wellFormed.nonempty b hb)
    | some records =>
      rw [hm, Option.getD_some] at hman
      rw [Option.map_some, Option.getD_some, hman, map_flatMap, flatMap_map]
      exact flatMap_congr hrecs
  · simp only [forall_mem_map, Session.consume_changes]
    exact h.backups
  · exact h.named

/-! ### Runs -/

/-- What happens to the files of a session. -/
inductive Action (B : Type) where
  | mutate (createdAt : ℤ) (stepId : String) (writes : List (String × B))
  | undoStep (consumedAt : ℤ)
  | undoPath (path : String) (consumedAt : ℤ)

/-- What the store does. The id of a batch has not been used before. -/
def step (d : Digest B H) (s : State B H) : Action B → Option (State B H)
  | .mutate createdAt stepId writes =>
    if (s.manifest.getD []).all fun r => r.stepId ≠ some stepId then
      mutate d createdAt stepId writes s
    else none
  | .undoStep consumedAt => some (undoStep d consumedAt s).2
  | .undoPath path consumedAt => some (undoPath d path consumedAt s).2

/-- What is meant to happen. -/
def Session.step (t : Session B) : Action B → Session B
  | .mutate createdAt stepId writes => t.mutate createdAt stepId writes
  | .undoStep consumedAt => t.undo (fun _ => true) consumedAt
  | .undoPath path consumedAt => t.undo (Batch.touches path) consumedAt

/-- The session after some actions. -/
def Session.after (files : Files B) (as : List (Action B)) : Session B :=
  as.foldl Session.step (Session.start files)

/-- A step of the store is as it is meant. -/
theorem Reflects.step {s' : State B H} {a : Action B}
    (h : Reflects d t s) (hs : BackupStore.step d s a = some s') :
  Reflects d (t.step a) s'
  := by
  cases a with
  | mutate createdAt stepId writes =>
    rw [BackupStore.step, Option.ite_none_right_eq_some] at hs
    apply h.mutate _ hs.2
    intro r hr
    simpa using all_eq_true.mp hs.1 r hr
  | undoStep consumedAt =>
    cases hs
    have hpick : ∀ b : Batch B, (fun _ : List (BackupRecord H) => true) (b.records d) =
        (fun _ => true) b := fun _ => rfl
    exact h.undo hpick consumedAt
  | undoPath path consumedAt =>
  cases hs
  apply h.undo _ consumedAt
  intro b
  rw [Batch.records, any_map]
  rfl

/-- In every run, the store holds what is needed to undo every batch of the session as it is
meant. -/
theorem run_reflects {as : List (Action B)} (hrun : run (step d) (State.fresh files) as = some s) :
  Reflects d (Session.after files as) s
  := by
  have hguard : Guarded (step d) (fun _ _ => True) (State.fresh files) as := Guarded.trivial _ as
  apply Guarded.invariant_history (I := fun past => Reflects d (Session.after files past))
    _ (Reflects.fresh d files) hguard hrun
  intro past u a u' hu _ hstep
  rw [Session.after, foldl_append]
  exact hu.step hstep

end BackupStore

end Storage
