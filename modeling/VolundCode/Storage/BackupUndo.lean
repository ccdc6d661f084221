import VolundCode.Storage.BackupRestore

/-!
# Undoing batches

Undoing one batch after the other, the newest first, leads back to the files before each of them
(`undo_batches`). In any order, a file is as it was before the session once all batches are undone,
if the first batch that changed it is undone last of those that did (`undo_all`). A batch with
another file may be undone before a newer one, and then this is not so.
-/

namespace Storage

open List

namespace BackupStore

open Run

variable {B H : Type}

/-- The action is a batch of changes. -/
def Action.mutates : Action B → Bool
  | .mutate _ _ _ => true
  | _ => false

/-- The action is a batch that changes a file. -/
def Action.changes : Action B → Bool
  | .mutate _ _ writes => !writes.isEmpty
  | _ => false

/-! ### The newest batches -/

/-- What a batch found in its files, put back. -/
theorem assign_changes (files : Files B) (writes : List (String × B)) :
  assign Change.path Change.before (write files writes) (Session.changes files writes) = files
  := by
  funext path
  have hpaths := Session.changes_paths files writes
  by_cases hpath : path ∈ (Session.changes files writes).map Change.path
  · obtain ⟨c, hc, rfl⟩ := mem_map.mp hpath
    rw [Assign.assign_of_mem _ hc, (Session.mem_changes hc).1]
    rw [hpaths]
    exact nodup_eraseDups _
  rw [Assign.assign_of_notMem hpath]
  apply write_of_notMem
  rw [← mem_eraseDups, ← hpaths]
  exact hpath

variable {files : Files B}

/-- The newest batch that is not consumed is undone. -/
theorem Session.undo_of_split {consumed batches : List (Batch B)} {b : Batch B}
    (hcons : ∀ x ∈ consumed, x.consumedAt.isSome) (hopen : b.consumedAt = none)
    (hdist : ((consumed ++ b :: batches).map Batch.stepId).Nodup) (consumedAt : ℤ) :
  Session.undo (fun _ => true) consumedAt ⟨files, consumed ++ b :: batches⟩ =
    ⟨assign Change.path Change.before files b.changes,
      consumed ++ { b with consumedAt := some consumedAt } :: batches⟩
  := by
  have htgt : Session.target (fun _ => true) ⟨files, consumed ++ b :: batches⟩ = some b := by
    rw [target, List.find?_append, List.find?_eq_none.mpr, Option.none_or, List.find?_cons_of_pos]
    · simp [hopen]
    · intro x hx
      obtain ⟨at', hat⟩ := Option.isSome_iff_exists.mp (hcons x hx)
      simp [hat]
  rw [map_append, map_cons, nodup_append, nodup_cons] at hdist
  obtain ⟨-, ⟨hbatch, -⟩, hdisjoint⟩ := hdist
  have hkeep : ∀ l : List (Batch B), b.stepId ∉ l.map Batch.stepId →
      l.map (Session.consume consumedAt b.stepId) = l := by
    intro l hl
    have hid : ∀ x ∈ l, Session.consume consumedAt b.stepId x = id x := by
      intro x hx
      rw [Session.consume, if_neg]
      · rfl
      intro heq
      apply hl
      rw [← heq]
      exact mem_map_of_mem hx
    rw [map_congr_left hid, map_id]
  have hnew : b.stepId ∉ consumed.map Batch.stepId := by
    intro hmem
    exact hdisjoint _ hmem _ mem_cons_self rfl
  rw [undo, htgt]
  simp only [map_append, map_cons, hkeep consumed hnew, hkeep batches hbatch,
    Session.consume, if_pos]

/-- As many batches as have been added are undone, and the files are as before them. -/
theorem Session.undo_batches {t : Session B} (post : List (Action B)) {times : List ℤ}
    (hpost : ∀ a ∈ post, a.mutates)
    (htimes : times.length = (post.filter Action.changes).length) {consumed : List (Batch B)}
    (hcons : ∀ x ∈ consumed, x.consumedAt.isSome)
    (hdist : ((consumed ++ (post.foldl step t).batches).map Batch.stepId).Nodup) :
  ((times.map Action.undoStep).foldl step
    ⟨(post.foldl step t).files, consumed ++ (post.foldl step t).batches⟩).files = t.files
  := by
  induction post using List.reverseRecOn generalizing times consumed with
  | nil =>
    obtain rfl := length_eq_zero_iff.mp htimes
    rfl
  | append_singleton post a ih =>
  have hpre : ∀ x ∈ post, x.mutates := fun x hx =>
    hpost x (mem_append_left _ hx)
  rw [foldl_append, foldl_cons, foldl_nil] at hdist ⊢
  rw [filter_append, length_append] at htimes
  cases a with
  | undoStep consumedAt => 
    exact absurd (hpost (.undoStep consumedAt) (by simp)) (by simp [Action.mutates])
  | undoPath path consumedAt =>
    exact absurd (hpost (.undoPath path consumedAt) (by simp)) (by simp [Action.mutates])
  | mutate createdAt stepId writes =>
  cases writes with
  | nil => exact ih hpre htimes hcons hdist
  | cons w writes =>
  obtain ⟨time, times, rfl⟩ : ∃ time rest, times = time :: rest := by
    apply exists_cons_of_length_pos
    rw [htimes]
    simp [Action.changes]
  have hlen : times.length = (post.filter Action.changes).length := by
    simpa [Action.changes] using htimes
  rw [map_cons, foldl_cons]
  change (List.foldl step (Session.undo (fun _ => true) time
    ⟨write (post.foldl step t).files (w :: writes),
      consumed ++ _ :: (post.foldl step t).batches⟩) _).files = _
  rw [Session.undo_of_split hcons rfl hdist, assign_changes, append_cons]
  apply ih hpre hlen
  · simp only [forall_mem_append, forall_mem_singleton]
    use hcons
    rfl
  · rw [← append_cons, map_append]
    rw [map_append] at hdist
    exact hdist

/-- The files after as many steps back as batches have been added last are those before these
batches. -/
theorem undo_batches [DecidableEq H] {d : Digest B H}
    {pre post : List (Action B)} {times : List ℤ} {s : State B H} (hpost : ∀ a ∈ post, a.mutates)
    (htimes : times.length = (post.filter Action.changes).length)
    (hrun : run (step d) (State.fresh files) (pre ++ post ++ times.map .undoStep) = some s) :
  ∃ u, run (step d) (State.fresh files) pre = some u ∧ s.files = u.files
  := by
  have hs := (run_reflects hrun).files
  rw [run_append, Option.bind_eq_some_iff] at hrun
  obtain ⟨v, hv, -⟩ := hrun
  have hdist := (run_reflects hv).wellFormed.distinct
  rw [run_append, Option.bind_eq_some_iff] at hv
  obtain ⟨u, hu, -⟩ := hv
  use u, hu
  rw [hs, (run_reflects hu).files]
  rw [Session.after, foldl_append] at hdist ⊢
  rw [foldl_append]
  have hnone : ∀ x ∈ ([] : List (Batch B)), x.consumedAt.isSome := by simp
  exact Session.undo_batches post hpost htimes hnone hdist

/-! ### All batches -/

/-- If the batch is the first one that changed the file, the others that did are undone. -/
def Batch.Last (path : String) (t : Session B) (b : Batch B) : Prop :=
  (t.batches.reverse.find? fun x => x.touches path) = some b →
    ∀ x ∈ t.batches, x.touches path → x.stepId = b.stepId ∨ x.consumedAt.isSome

/-- The first batch that changed the file is only undone after the others that did. -/
def UndoneLast (path : String) (t : Session B) : Action B → Prop
  | .mutate _ _ _ => True
  | .undoStep _ => ∀ b ∈ t.target fun _ => true, b.Last path t
  | .undoPath path' _ => ∀ b ∈ t.target (Batch.touches path'), b.Last path t

instance [DecidableEq B] (path : String) (t : Session B) (b : Batch B) :
    Decidable (b.Last path t) :=
  inferInstanceAs (Decidable (_ → ∀ x ∈ t.batches, _ → _ ∨ _))

instance [DecidableEq B] (path : String) (t : Session B) :
    ∀ a, Decidable (UndoneLast path t a)
  | .mutate _ _ _ => isTrue True.intro
  | .undoStep _ => inferInstanceAs (Decidable (∀ b ∈ t.target fun _ => true, b.Last path t))
  | .undoPath path' _ =>
    inferInstanceAs (Decidable (∀ b ∈ t.target (Batch.touches path'), b.Last path t))

/-- If the first batch that changed the file is undone, so are the others, and the file is as it
was before the session. -/
structure Settled (files : Files B) (path : String) (t : Session B) : Prop where
  wellFormed : t.WellFormed
  begins : t.Begins files
  settled : ∀ b, (t.batches.reverse.find? fun x => x.touches path) = some b → b.consumedAt.isSome →
    (∀ x ∈ t.batches, x.touches path → x.consumedAt.isSome) ∧ t.files path = files path

/-- The first batch that changed the file found it as it was before the session. -/
theorem Session.Begins.before_of_first {path : String} {t : Session B}
    (h : t.Begins files) (hpaths : ∀ b ∈ t.batches, (b.changes.map Change.path).Nodup) {b : Batch B}
    (hb : (t.batches.reverse.find? fun x => x.touches path) = some b) {c : Change B}
    (hc : c ∈ b.changes) (hpath : c.path = path) :
  c.before = files path
  := by
  obtain ⟨-, older, newer, hsplit, hnone⟩ := List.find?_eq_some_iff_append.mp hb
  have hents : t.entries.reverse = (older.flatMap fun x =>
      (x.changes.map fun c => (x, c)).reverse) ++ ((b.changes.map fun c => (b, c)).reverse ++
        newer.flatMap fun x => (x.changes.map fun c => (x, c)).reverse) := by
    rw [entries, reverse_flatMap, hsplit, flatMap_append, flatMap_cons]
    rfl
  have holder : (older.flatMap fun x => (x.changes.map fun c => (x, c)).reverse).find?
      (fun e => e.2.path = path) = none := by
    rw [List.find?_eq_none]
    intro e he hepath
    obtain ⟨x, hx, hmem⟩ := mem_flatMap.mp he
    rw [mem_reverse] at hmem
    obtain ⟨c', hc', rfl⟩ := mem_map.mp hmem
    have htouch := hnone x hx
    rw [Batch.touches, Bool.not_eq_true', any_eq_false] at htouch
    exact htouch c' hc' hepath
  have hmem : (b, c) ∈ (b.changes.map fun c => (b, c)).reverse := by
    rw [mem_reverse]
    exact mem_map_of_mem hc
  cases hfound : (b.changes.map fun c => (b, c)).reverse.find? fun e => e.2.path = path with
  | none =>
    rw [List.find?_eq_none] at hfound
    exact absurd (decide_eq_true hpath) (hfound _ hmem)
  | some e =>
  have he := mem_of_find?_eq_some hfound
  have hepath : e.2.path = path := by simpa using List.find?_some hfound
  rw [mem_reverse] at he
  obtain ⟨c', hc', rfl⟩ := mem_map.mp he
  have hbatch : b ∈ t.batches := mem_reverse.mp (mem_of_find?_eq_some hb)
  have heq : c = c' := inj_on_of_nodup_map (hpaths b hbatch) hc hc' (hpath.trans hepath.symm)
  have holdest : t.oldest path = some c.before := by
    rw [oldest, hents, List.find?_append, holder, Option.none_or, List.find?_append, hfound, heq]
    rfl
  rcases h path with hfirst | ⟨hnone, -⟩
  · exact Option.some.inj (holdest.symm.trans hfirst)
  · rw [holdest] at hnone
    cases hnone

/-- A consumed batch touches what it touched before. -/
@[simp]
theorem Session.consume_touches (consumedAt : ℤ) (stepId path : String) (b : Batch B) :
  (consume consumedAt stepId b).touches path = b.touches path
  := by
  rw [Batch.touches, consume_changes]
  rfl

/-- A batch that is consumed stays so. -/
theorem Session.consume_isSome {consumedAt : ℤ} {stepId : String} {b : Batch B}
    (h : b.consumedAt.isSome ∨ b.stepId = stepId) :
  (consume consumedAt stepId b).consumedAt.isSome
  := by
  rw [consume]
  split_ifs with hid
  · rfl
  · exact h.resolve_right hid

/-- An undone batch leaves the session settled, if the first batch that changed the file is undone
last. -/
theorem Settled.undo {path : String} {t : Session B}
    (h : Settled files path t) {pick : Batch B → Bool} (consumedAt : ℤ)
    (hlast : ∀ b ∈ t.target pick, b.Last path t) :
  Settled files path (t.undo pick consumedAt)
  := by
  use h.wellFormed.undo pick consumedAt, h.begins.undo pick consumedAt
  cases htgt : t.target pick with
  | none =>
    rw [Session.undo, htgt]
    exact h.settled
  | some b =>
  have hb : b ∈ t.batches := mem_of_find?_eq_some htgt
  have hopen : b.consumedAt = none := by
    have hfound := List.find?_some htgt
    simp only [Bool.and_eq_true, Option.isNone_iff_eq_none] at hfound
    exact hfound.1
  rw [Session.undo, htgt]
  intro b' hb' hcons
  have hcomp : (fun x : Batch B => x.touches path) ∘ Session.consume consumedAt b.stepId =
      fun x => x.touches path :=
    funext fun x => Session.consume_touches consumedAt b.stepId path x
  rw [← map_reverse, List.find?_map, hcomp, Option.map_eq_some_iff] at hb'
  obtain ⟨b₀, hfirst, rfl⟩ := hb'
  have hb₀ : b₀ ∈ t.batches := mem_reverse.mp (mem_of_find?_eq_some hfirst)
  simp only [forall_mem_map, Session.consume_touches]
  by_cases hid : b₀.stepId = b.stepId
  · obtain rfl : b₀ = b := inj_on_of_nodup_map h.wellFormed.distinct hb₀ hb hid
    constructor
    · intro x hx htouch
      exact Session.consume_isSome ((hlast b₀ htgt hfirst x hx htouch).symm)
    have htouch : b₀.touches path := by simpa using List.find?_some hfirst
    obtain ⟨c, hc, hpath⟩ := any_eq_true.mp htouch
    have hpath' : c.path = path := of_decide_eq_true hpath
    rw [← h.begins.before_of_first h.wellFormed.paths hfirst hc hpath', ← hpath']
    exact Assign.assign_of_mem (h.wellFormed.paths b₀ hb) hc
  have hold : b₀.consumedAt.isSome := by
    rw [Session.consume, if_neg hid] at hcons
    exact hcons
  obtain ⟨hall, hfile⟩ := h.settled b₀ hfirst hold
  constructor
  · intro x hx htouch
    exact Session.consume_isSome (Or.inl (hall x hx htouch))
  rw [← hfile]
  apply Assign.assign_of_notMem
  intro hmem
  obtain ⟨c, hc, hpath⟩ := mem_map.mp hmem
  have htouch : b.touches path := any_eq_true.mpr ⟨c, hc, decide_eq_true hpath⟩
  have hdone := hall b hb htouch
  rw [hopen] at hdone
  cases hdone

/-- No batch is consumed while all that happens is further batches. -/
theorem Session.open_of_mutates (files : Files B) {as : List (Action B)}
    (has : ∀ a ∈ as, a.mutates) :
  ∀ b ∈ (after files as).batches, b.consumedAt = none
  := by
  induction as using List.reverseRecOn with
  | nil => simp [after, start]
  | append_singleton as a ih =>
  have hbatch := ih fun x hx => has x (mem_append_left _ hx)
  have ha := has a (by simp)
  rw [after, foldl_append, foldl_cons, foldl_nil]
  cases a with
  | undoStep consumedAt | undoPath path consumedAt => cases ha
  | mutate createdAt stepId writes =>
  cases writes with
  | nil => exact hbatch
  | cons w writes =>
    change ∀ b ∈ _ :: (after files as).batches, b.consumedAt = none
    rw [forall_mem_cons]
    use rfl

/-- Once all batches are undone, a file is as it was before the session, if the first batch that
changed it was undone after the others that did. -/
theorem undo_all [DecidableEq H] {d : Digest B H} {batches undos : List (Action B)}
    {s : State B H} {path : String} (hbatch : ∀ a ∈ batches, a.mutates)
    (hundos : ∀ a ∈ undos, a.mutates = false)
    (hrun : run (step d) (State.fresh files) (batches ++ undos) = some s)
    (hcons : ∀ r ∈ s.manifest.getD [], r.consumedAt.isSome)
    (hlast : Guarded (fun t a => some (Session.step t a)) (UndoneLast path)
      (Session.after files batches) undos) :
  s.files path = files path
  := by
  have hreflects := run_reflects hrun
  have hset : Settled files path (Session.after files (batches ++ undos)) := by
    have hundo : ∀ as : List (Action B), (∀ a ∈ as, a.mutates = false) → ∀ t,
        Settled files path t → Guarded (fun t a => some (Session.step t a)) (UndoneLast path) t as →
          Settled files path (as.foldl Session.step t) := by
      intro as
      induction as with
      | nil => exact fun _ t ht _ => ht
      | cons a as ih =>
      intro has t ht hok
      have hstep : Settled files path (t.step a) := by
        cases a with
        | mutate createdAt stepId writes => cases has _ mem_cons_self
        | undoStep consumedAt | undoPath path' consumedAt => exact ht.undo consumedAt hok.1
      exact ih (fun x hx => has x (mem_cons_of_mem a hx)) _ hstep hok.2
    rw [Session.after, foldl_append]
    apply hundo undos hundos _ _ hlast
    rw [run_append, Option.bind_eq_some_iff] at hrun
    obtain ⟨u, hu, -⟩ := hrun
    use (run_reflects hu).wellFormed, Session.begins_after files batches
    intro b hb hdone
    rw [Session.open_of_mutates files hbatch b
      (mem_reverse.mp (mem_of_find?_eq_some hb))] at hdone
    cases hdone
  rw [hreflects.files]
  cases hfirst : (Session.after files (batches ++ undos)).batches.reverse.find?
      fun x => x.touches path with
  | some b =>
    have hb := mem_reverse.mp (mem_of_find?_eq_some hfirst)
    obtain ⟨c, cs, hc⟩ := exists_cons_of_ne_nil (hreflects.wellFormed.nonempty b hb)
    have hdone : (b.record d c).consumedAt.isSome := by
      apply hcons
      rw [hreflects.records]
      exact mem_flatMap.mpr ⟨b, hb, mem_map_of_mem (by simp [hc])⟩
    exact (hset.settled b hfirst hdone).2
  | none =>
  rcases hset.begins path with hfound | ⟨-, hfile⟩
  · obtain ⟨e, he, -⟩ := Option.map_eq_some_iff.mp hfound
    have hmem := mem_reverse.mp (mem_of_find?_eq_some he)
    have hpath := List.find?_some he
    obtain ⟨b, hb, hpair⟩ := mem_flatMap.mp hmem
    obtain ⟨c, hc, rfl⟩ := mem_map.mp hpair
    rw [List.find?_eq_none] at hfirst
    exact absurd (any_eq_true.mpr ⟨c, hc, hpath⟩) (hfirst b (mem_reverse.mpr hb))
  · exact hfile

/-- A batch of one file and a batch of none. -/
def emptyBatchRun : List (Action ℕ) :=
  [.mutate 1 "1" [("a", 1)], .mutate 2 "2" []]

/-- A batch of two files, and a batch of one of these. -/
def sharedBatches : List (Action ℕ) :=
  [.mutate 1 "1" [("a", 1), ("b", 1)], .mutate 2 "2" [("b", 2)]]

end BackupStore

end Storage
