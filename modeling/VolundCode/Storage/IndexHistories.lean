import Mathlib.Data.String.Basic
import VolundCode.Lib.Sorting
import VolundCode.Storage.MemoryIndex

/-!
# Histories of the memory index

An index that has been built of some records is told of every record that is written and of every
one that is removed. It should be what indexing the remaining records from nothing makes it: its
snapshot can be read, counts the words of each document, and is found healthy.

It is so in every history exactly when no active record contains the word `constructor` and the
ids of no two active records are tied in the order of the documents (`incremental_iff`). The
words are counted in a plain object, which inherits a property of that name, and the text that
comes of adding to it makes the snapshot unreadable.
-/

namespace Storage

open Effect Fault Sorting List

variable (env : IndexExternals) (store : Store)

/-! ### Calls of the index -/

/-- What the index is told. -/
inductive IndexCall where
  | upsert (record : MemoryRecord)
  | remove (id : String)

/-- All steps are done. -/
def allDone : Faults IndexFile where
  fate _ := .done
  torn := none

/-- A mutation all of whose steps on the index are done; the index does not see its outcome. -/
def quiet : Mutation where
  outcome := .throws ⟨[], List.nodup_nil⟩
  fate _ := .done
  reindex := allDone
  update := allDone

def IndexCall.perform : IndexCall → Effect Stop IndexedMemory Unit
  | .upsert record => Storage.upsert env store quiet record
  | .remove id => Storage.remove env store quiet id

/-- The state an effect leaves, whether it returns or throws. -/
def left (x : Effect Stop IndexedMemory Unit) (w : IndexedMemory) : IndexedMemory :=
  match x w with
  | .ok _ t => t
  | .error _ t => t

/-- The index that is built of the records where there is none. -/
def indexed (facts : MemoryRecords) : IndexedMemory :=
  left (reindex env store quiet) ⟨facts, .new, false, false⟩

/-- The index after calls, from that of the records. -/
def indexAfter (facts : MemoryRecords) (calls : List IndexCall) : IndexedMemory :=
  calls.foldl (fun w call => left (call.perform env store) w) (indexed env store facts)

/-! ### The records that remain -/

/-- The records without that of the id. -/
def MemoryRecords.without (facts : MemoryRecords) (id : String) : MemoryRecords where
  records := facts.records.filter fun record => record.id ≠ id
  nodup := facts.nodup.sublist (List.filter_sublist.map _)

/-- The records after a call. -/
def MemoryRecords.after (facts : MemoryRecords) : IndexCall → MemoryRecords
  | .upsert record => facts.set record
  | .remove id => facts.without id

/-- The records that remain after calls. -/
def remaining (facts : MemoryRecords) (calls : List IndexCall) : MemoryRecords :=
  calls.foldl MemoryRecords.after facts

/-! ### What the index should be -/

/-- The terms are the words, each with the number of its occurrences. -/
structure Counted (words : List String) (terms : List (String × Frequency)) : Prop where
  names : (terms.map Prod.fst).Nodup
  counts : ∀ term frequency, (term, frequency) ∈ terms ↔
    term ∈ words ∧ frequency = .number (words.count term)

/-- The snapshot in the files is what indexing the records from nothing writes, it counts the words
of each document, and the index is found healthy. -/
structure Mirrors (facts : MemoryRecords) (w : IndexedMemory) (snapshot : MemoryIndexSnapshot) :
    Prop where
  accepted : readSnapshot w.files.current = some snapshot
  rebuilt : (indexed env store facts).files.current = some (some snapshot)
  counted : ∀ document ∈ snapshot.documents, ∃ record ∈ facts.records,
    document.id = record.id ∧ Counted (env.tokenize (indexedText record)) document.terms
  healthy : healthy env { w with facts := facts }

/-- After every part of the history the index mirrors the records that remain, in whatever order
they are listed. -/
def Incremental (facts : MemoryRecords) (calls : List IndexCall) : Prop :=
  ∀ done, done <+: calls → ∀ listing : MemoryRecords,
    listing.records.Perm (remaining facts done).records →
      ∃ snapshot, Mirrors env store listing (indexAfter env store facts done) snapshot

/-- The records that are not deleted. -/
def activeRecords (records : List MemoryRecord) : List MemoryRecord :=
  records.filter fun record => record.deletedAt.isNone

/-- No active record contains the word `constructor`, and the ids of no two of them are tied. -/
structure Plain (facts : MemoryRecords) : Prop where
  words : ∀ record ∈ activeRecords facts.records, "constructor" ∉ env.tokenize (indexedText record)
  ids : Untied env.localeCompare ((activeRecords facts.records).map MemoryRecord.id)

/-! ### Counting words -/

/-- How often a term occurs that occurs `n` times more than once. -/
def tally (term : String) (n : ℕ) : Frequency :=
  Frequency.succ^[n]
    (match inherited term with
    | none => .number 1
    | some s => .text (s ++ "1"))

/-- The terms of the words. -/
def countTerms (words : List String) : List (String × Frequency) :=
  words.foldl (fun terms term => countTerm term terms) []

theorem map_countTerm {term : String} {terms : List (String × Frequency)} :
  (countTerm term terms).map Prod.fst =
    if term ∈ terms.map Prod.fst then terms.map Prod.fst else terms.map Prod.fst ++ [term]
  := by
  induction terms with
  | nil =>
    rw [countTerm]
    cases inherited term <;> rfl
  | cons entry terms ih =>
  rw [countTerm]
  split_ifs with hterm hmem hmem
  · rfl
  · simp [hterm] at hmem
  · rw [map_cons, ih, if_pos, map_cons]
    simpa [Ne.symm hterm] using hmem
  · rw [map_cons, ih, if_neg, map_cons, cons_append]
    simp only [map_cons, mem_cons, not_or] at hmem
    apply hmem.2

theorem lookup_countTerm {term t : String} {terms : List (String × Frequency)} :
  (countTerm term terms).lookup t =
    if t = term then
      some ((terms.lookup term).elim (tally term 0) Frequency.succ)
    else terms.lookup t
  := by
  induction terms with
  | nil =>
    have hnil : countTerm term [] = [(term, tally term 0)] := by
      rw [countTerm, tally]
      cases inherited term <;> rfl
    rw [hnil]
    split_ifs with ht
    · simp [ht]
    · simp [List.lookup_cons, beq_false_of_ne ht]
  | cons entry terms ih =>
  obtain ⟨name, value⟩ := entry
  rw [countTerm]
  split_ifs with hterm ht ht
  · simp [hterm, ht]
  · simp [lookup_cons, hterm, beq_false_of_ne ht]
  · subst ht
    have hname : (t == name) = false := beq_false_of_ne (Ne.symm hterm)
    rw [lookup_cons, hname, ih, if_pos rfl, lookup_cons, hname]
  · rw [lookup_cons, ih, if_neg ht, lookup_cons]

/-- The terms of the words are named once. -/
theorem nodup_countTerms (words : List String) :
  ((countTerms words).map Prod.fst).Nodup
  := by
  induction words using List.reverseRecOn with
  | nil => exact nodup_nil
  | append_singleton words word ih =>
  rw [countTerms, foldl_concat, ← countTerms, map_countTerm]
  split_ifs with hmem
  · apply ih
  apply nodup_append.mpr
  simp only [nodup_singleton, mem_singleton, ne_eq, true_and]
  use ih
  rintro t ht _ rfl rfl
  apply hmem ht

/-- A term of the words has the tally of its occurrences. -/
theorem lookup_countTerms (words : List String) (t : String) :
  (countTerms words).lookup t =
    if t ∈ words then some (tally t (words.count t - 1)) else none
  := by
  induction words using List.reverseRecOn with
  | nil => rfl
  | append_singleton words word ih =>
  rw [countTerms, foldl_concat, ← countTerms, lookup_countTerm]
  split_ifs with ht hmem hmem
  · subst ht
    rw [ih]
    split_ifs with hold
    · have hpos := count_pos_iff.mpr hold
      obtain ⟨n, hn⟩ := Nat.exists_eq_succ_of_ne_zero hpos.ne'
      simp [hn, tally, Function.iterate_succ_apply']
    · simp [count_eq_zero_of_not_mem hold]
  · simp [ht] at hmem
  · have hold : t ∈ words := by simpa [ht] using hmem
    have hnone : [word].count t = 0 := count_eq_zero_of_not_mem (by simpa using ht)
    rw [ih, if_pos hold, count_append, hnone, Nat.add_zero]
  · have hold : t ∉ words := fun hold => hmem (mem_append_left _ hold)
    rw [ih, if_neg hold]

/-- What is there under a name that is there once. -/
theorem mem_iff_lookup {terms : List (String × Frequency)} (hnodup : (terms.map Prod.fst).Nodup)
    {t : String} {frequency : Frequency} :
  (t, frequency) ∈ terms ↔ terms.lookup t = some frequency
  := by
  induction terms with
  | nil => simp
  | cons entry terms ih =>
  obtain ⟨hentry, hterms⟩ := nodup_cons.mp hnodup
  obtain ⟨name, value⟩ := entry
  rw [lookup_cons, mem_cons, ih hterms]
  by_cases hname : t = name
  · subst hname
    have hnone : terms.lookup t ≠ some frequency := by
      intro hsome
      have hmem := (ih hterms).mpr hsome
      apply hentry
      apply mem_map.mpr
      use (t, frequency), hmem
    simp [hnone, eq_comm]
  · simp [hname, beq_false_of_ne hname]

theorem tally_of_plain {term : String} (h : term ≠ "constructor") (n : ℕ) :
  tally term n = .number (n + 1)
  := by
  induction n with
  | zero => simp [tally, inherited, h]
  | succ n ih => rw [tally, Function.iterate_succ_apply', ← tally, ih, Frequency.succ]

theorem tally_constructor (n : ℕ) :
  ∃ s, tally "constructor" n = .text s
  := by
  induction n with
  | zero => exact ⟨_, rfl⟩
  | succ n ih =>
    obtain ⟨s, hs⟩ := ih
    use s ++ "1"
    rw [tally, Function.iterate_succ_apply', ← tally, hs, Frequency.succ]

/-- Words other than `constructor` are counted. -/
theorem counted_countTerms {words : List String} (h : "constructor" ∉ words) :
  Counted words (countTerms words)
  := by
  constructor
  · apply nodup_countTerms
  intro term frequency
  rw [mem_iff_lookup (nodup_countTerms words), lookup_countTerms]
  split_ifs with hmem
  · have hne : term ≠ "constructor" := fun heq => h (heq ▸ hmem)
    have hpos := count_pos_iff.mpr hmem
    rw [tally_of_plain hne, Nat.sub_add_cancel hpos, Option.some.injEq]
    simp [hmem, eq_comm]
  · simp [hmem]

/-- The frequencies are valid exactly when `constructor` is not among the words. -/
theorem valid_iff (words : List String) :
  ((countTerms words).all fun term => term.2.valid) ↔ "constructor" ∉ words
  := by
  rw [all_eq_true]
  constructor
  · intro hall hmem
    obtain ⟨s, hs⟩ := tally_constructor (words.count "constructor" - 1)
    have hentry : ("constructor", Frequency.text s) ∈ countTerms words := by
      rw [mem_iff_lookup (nodup_countTerms words), lookup_countTerms, if_pos hmem, hs]
    cases hall _ hentry
  rintro h ⟨term, frequency⟩ hmem
  obtain ⟨hterm, rfl⟩ := ((counted_countTerms h).counts term frequency).mp hmem
  have hpos := count_pos_iff.mpr hterm
  simpa [Frequency.valid] using hpos

/-! ### Documents in order -/

variable {env store}
variable {facts : MemoryRecords} {w : IndexedMemory}

/-- The order of untied documents matters neither to their fingerprint nor to the sorted list. -/
theorem sortDocuments_of_perm {documents documents' : List MemoryIndexDocument}
    (hcomp : Comparison env.localeCompare)
    (h : Untied env.localeCompare (documents.map MemoryIndexDocument.id))
    (hperm : documents.Perm documents') :
  sortDocuments env documents = sortDocuments env documents'
  := by
  apply sort_eq_of_perm (hcomp.comap _) (pairwise_map.mp h) hperm

theorem fingerprintDocuments_of_sort {documents documents' : List MemoryIndexDocument}
    (h : sortDocuments env documents = sortDocuments env documents') :
  fingerprintDocuments env documents = fingerprintDocuments env documents'
  := by
  rw [fingerprintDocuments, fingerprintDocuments, h]

theorem map_activeDocuments (records : List MemoryRecord) :
  (activeDocuments env records).map MemoryIndexDocument.id =
    (activeRecords records).map MemoryRecord.id
  := by
  rw [activeDocuments, map_map]
  rfl

theorem Plain.untied (h : Plain env facts) :
  Untied env.localeCompare ((activeDocuments env facts.records).map MemoryIndexDocument.id)
  := by
  rw [map_activeDocuments]
  apply h.ids

/-- The snapshot of plain records can be read. -/
theorem Plain.read (h : Plain env facts) :
  readSnapshot (some (some (rebuiltSnapshot env facts.records))) =
    some (rebuiltSnapshot env facts.records)
  := by
  apply readSnapshot_of_valid
  rw [all_eq_true]
  intro document hmem
  obtain ⟨record, hrec, rfl⟩ := mem_map.mp (mem_mergeSort.mp hmem)
  exact (valid_iff _).mpr (h.words record hrec)

/-! ### What the calls do -/

theorem left_of_wp {x : Effect Stop IndexedMemory Unit} {P : IndexedMemory → Prop}
    (h : wp x (fun _ => P) (fun _ => P) w) :
  P (left x w)
  := by
  rw [left]
  cases hx : x w with
  | ok _ t => apply wp_ok h hx
  | error _ t => apply wp_error h hx

/-- A save all of whose steps are done puts its bytes in place. -/
theorem saveUnlocked_allDone {bytes : IndexFile} {d : Directory IndexFile} :
  wp (saveUnlocked store allDone bytes) (fun _ t => t.current = some bytes) (fun _ _ => False) d
  := by
  have hkeep (d : Directory IndexFile) : d.keepCurrent.temporary = d.temporary := by
    rw [Directory.keepCurrent]
    cases d.current with
    | none | some _ => rfl
  have hhook : allDone.hook store = .done := by
    rw [Faults.hook]
    split_ifs
    · rfl
    · rfl
  simp only [saveUnlocked, writeTemporary, replaceFiles, putInPlace, hhook]
  cases store.win32 with
  | true => simp [allDone, hkeep, Directory.replaceCurrent]
  | false => simp [allDone, syncDirectory, hkeep, Directory.replaceCurrent]

/-- A snapshot is saved, and nothing else changes. -/
theorem saveSnapshot_allDone {snapshot : MemoryIndexSnapshot} :
  wp (saveSnapshot store allDone snapshot)
    (fun _ t => t.files.current = some (some snapshot) ∧ t.dirty = w.dirty) (fun _ _ => False) w
  := by
  rw [saveSnapshot, wp_focus]
  apply wp_mono saveUnlocked_allDone
  · intro _ files h
    use h
  · intro _ _ h
    apply h

/-- The files hold what indexing the records writes, and are not dirty. -/
def Holds (env : IndexExternals) (facts : MemoryRecords) (w : IndexedMemory) : Prop :=
  w.files.current = some (some (rebuiltSnapshot env facts.records)) ∧ w.dirty = false

/-- The index that is built of the records. -/
theorem indexed_holds :
  Holds env facts (indexed env store facts)
  := by
  apply left_of_wp
  have hhealthy : healthy env ⟨facts, .new, false, false⟩ = false := rfl
  simp only [reindex, rebuild, quiet, wp_bind, wp_attempt, wp_get, id_eq, hhealthy,
    Bool.false_eq_true, if_false, wp_ensuring, clearDirty]
  apply wp_mono saveSnapshot_allDone
  · rintro _ t ⟨hcur, hdirty⟩
    exact ⟨hcur, rfl⟩
  · intro _ _ h
    cases h

theorem activeDocuments_without (id : String) :
  activeDocuments env (facts.without id).records = others id (activeDocuments env facts.records)
  := by
  rw [others, activeDocuments, activeDocuments, MemoryRecords.without, filter_map,
    filter_filter, filter_filter]
  congr 1
  apply filter_congr
  intro r _
  exact (Bool.and_comm _ _).symm

section Steps

variable {facts' : MemoryRecords}

/-- A snapshot of documents in order is that of the records whose documents they are. -/
theorem rebuiltSnapshot_of_perm {documents : List MemoryIndexDocument}
    (hcomp : Comparison env.localeCompare) (h : Plain env facts)
    (hperm : (activeDocuments env facts.records).Perm documents) :
  rebuiltSnapshot env facts.records =
    { sourceFingerprint := fingerprintDocuments env documents
      documents := sortDocuments env documents }
  := by
  have hsort := sortDocuments_of_perm hcomp h.untied hperm
  rw [rebuiltSnapshot, hsort, fingerprintDocuments_of_sort hsort]

/-- The documents of a snapshot without one of them are still in order. -/
theorem sortDocuments_others (hcomp : Comparison env.localeCompare) (id : String)
    (documents : List MemoryIndexDocument) :
  sortDocuments env (others id (sortDocuments env documents)) =
    others id (sortDocuments env documents)
  := by
  apply mergeSort_of_pairwise
  apply List.Pairwise.filter
  apply (hcomp.comap _).pairwise

/-- The snapshot of the records that remain when one is removed. -/
theorem rebuiltSnapshot_removed {id : String} (hcomp : Comparison env.localeCompare)
    (h' : Plain env facts') (hperm : (activeDocuments env facts'.records).Perm
      (others id (activeDocuments env facts.records))) :
  rebuiltSnapshot env facts'.records =
    { sourceFingerprint :=
        fingerprintDocuments env (others id (rebuiltSnapshot env facts.records).documents)
      documents := others id (rebuiltSnapshot env facts.records).documents }
  := by
  have hdocs : (activeDocuments env facts'.records).Perm
      (others id (sortDocuments env (activeDocuments env facts.records))) :=
    hperm.trans ((mergeSort_perm _ _).symm.filter _)
  rw [rebuiltSnapshot_of_perm hcomp h' hdocs, sortDocuments_others hcomp]
  rfl

/-- Removing a document makes the index that of the remaining records. -/
theorem remove_holds {id : String} (hcomp : Comparison env.localeCompare) (h : Plain env facts)
    (h' : Plain env facts') (hw : Holds env facts w)
    (hperm : (activeDocuments env facts'.records).Perm
      (others id (activeDocuments env facts.records))) :
  wp (remove env store quiet id) (fun _ => Holds env facts') (fun _ => Holds env facts') w
  := by
  have hread : readSnapshot w.files.current = some (rebuiltSnapshot env facts.records) := by
    rw [hw.1]
    apply h.read
  have hreb := rebuiltSnapshot_removed hcomp h' hperm
  simp only [remove, quiet, wp_bind, wp_attempt, id_eq, wp_ensuring, removeLocked,
    requirePrimarySnapshot, wp_get, hread, wp_pure, wp_ite]
  split_ifs with hlen
  · have hsame : others id (rebuiltSnapshot env facts.records).documents =
        (rebuiltSnapshot env facts.records).documents :=
      filter_eq_self.mpr (length_filter_eq_length_iff.mp hlen)
    rw [hsame] at hreb
    have heq : rebuiltSnapshot env facts'.records = rebuiltSnapshot env facts.records := by
      rw [hreb, rebuiltSnapshot]
      congr 1
      apply fingerprintDocuments_of_sort
      apply mergeSort_of_pairwise
      apply (hcomp.comap _).pairwise
    rw [Holds, heq]
    apply hw
  apply wp_mono saveSnapshot_allDone
  · rintro _ t ⟨hcur, hdirty⟩
    rw [Holds, hcur, hdirty, hreb]
    exact ⟨rfl, hw.2⟩
  · intro _ _ hfalse
    cases hfalse

/-- Adding or replacing a document makes the index that of the records then. -/
theorem upsert_holds {record : MemoryRecord} (hcomp : Comparison env.localeCompare)
    (h : Plain env facts) (h' : Plain env (facts.set record)) (hw : Holds env facts w) :
  wp (upsert env store quiet record) (fun _ => Holds env (facts.set record))
    (fun _ => Holds env (facts.set record)) w
  := by
  have hread : readSnapshot w.files.current = some (rebuiltSnapshot env facts.records) := by
    rw [hw.1]
    apply h.read
  have hperm := @activeDocuments_set env record facts
  rw [upsert]
  split_ifs with hdel
  · rw [if_pos hdel, append_nil] at hperm
    apply remove_holds hcomp h h' hw hperm
  rw [if_neg hdel] at hperm
  have hdocs : (activeDocuments env (facts.set record).records).Perm
      (others record.id (sortDocuments env (activeDocuments env facts.records)) ++
        [toDocument env record]) :=
    hperm.trans (((mergeSort_perm _ _).symm.filter _).append_right _)
  have hreb := rebuiltSnapshot_of_perm hcomp h' hdocs
  simp only [quiet, wp_bind, wp_attempt, id_eq, wp_ensuring, upsertLocked,
    requirePrimarySnapshot, wp_get, hread, wp_pure]
  apply wp_mono saveSnapshot_allDone
  · rintro _ t ⟨hcur, hdirty⟩
    rw [Holds, hcur, hdirty, hreb]
    exact ⟨rfl, hw.2⟩
  · intro _ _ hfalse
    cases hfalse

/-- A call makes the index that of the records after it. -/
theorem call_holds {call : IndexCall} (hcomp : Comparison env.localeCompare)
    (h : Plain env facts) (h' : Plain env (facts.after call)) (hw : Holds env facts w) :
  Holds env (facts.after call) (left (call.perform env store) w)
  := by
  apply left_of_wp
  cases call with
  | upsert record => apply upsert_holds hcomp h h' hw
  | remove id =>
    apply remove_holds hcomp h h' hw
    change (activeDocuments env (facts.without id).records).Perm _
    rw [activeDocuments_without]

end Steps

/-! ### Histories -/

/-- In a history of plain records the index is that of the records that remain. -/
theorem history_holds (store : Store) {calls : List IndexCall}
    (hcomp : Comparison env.localeCompare)
    (hplain : ∀ done, done <+: calls → Plain env (remaining facts done)) :
  Holds env (remaining facts calls) (indexAfter env store facts calls)
  := by
  induction calls using List.reverseRecOn with
  | nil => apply indexed_holds
  | append_singleton calls call ih =>
  have hcalls (done : List IndexCall) (hdone : done <+: calls) :
      Plain env (remaining facts done) := hplain done (hdone.trans (prefix_append _ _))
  have hlast := hplain (calls ++ [call]) (prefix_refl _)
  rw [remaining, foldl_concat] at hlast ⊢
  rw [indexAfter, foldl_concat]
  apply call_holds hcomp (hcalls calls (prefix_refl _)) hlast (ih hcalls)

/-- An index that is that of plain records mirrors them, in whatever order they are listed. -/
theorem Holds.mirrors {listing : MemoryRecords} (hcomp : Comparison env.localeCompare)
    (h : Plain env facts) (hw : Holds env facts w) (hperm : listing.records.Perm facts.records) :
  Mirrors env store listing w (rebuiltSnapshot env facts.records)
  := by
  have hdocs : (activeDocuments env facts.records).Perm
      (activeDocuments env listing.records) := (hperm.symm.filter _).map _
  have hreb := rebuiltSnapshot_of_perm hcomp h hdocs
  have hread : readSnapshot w.files.current = some (rebuiltSnapshot env facts.records) := by
    rw [hw.1]
    apply h.read
  constructor
  · apply hread
  · rw [indexed_holds.1, hreb, rebuiltSnapshot]
  · intro document hmem
    obtain ⟨record, hrec, rfl⟩ := mem_map.mp (mem_mergeSort.mp hmem)
    use record, hperm.mem_iff.mpr (mem_of_mem_filter hrec), rfl
    exact counted_countTerms (h.words record hrec)
  rw [healthy]
  simp only [hread, hw.2, Bool.not_false, Bool.true_and, Bool.and_eq_true, decide_eq_true_eq]
  constructor
  · rw [hdocs.symm.length_eq]
    exact (mergeSort_perm _ _).length_eq.symm
  · rw [hreb]

/-- Records with the ids in another order. -/
theorem exists_listing {ids : List String}
    (hperm : ((activeRecords facts.records).map MemoryRecord.id).Perm ids) :
  ∃ listing : MemoryRecords, listing.records.Perm facts.records ∧
    (activeRecords listing.records).map MemoryRecord.id = ids
  := by
  have hcomp : Relation.Comp (· = List.map MemoryRecord.id ·) Perm ids
      (activeRecords facts.records) := by
    have heq := congrFun (congrFun (eq_map_comp_perm MemoryRecord.id) ids)
      (activeRecords facts.records)
    rw [heq]
    apply hperm.symm
  obtain ⟨records, rfl, hrecs⟩ := hcomp
  have hall : (records ++ facts.records.filter fun record => !record.deletedAt.isNone).Perm
      facts.records :=
    (hrecs.append_right _).trans (filter_append_perm _ _)
  use ⟨_, ((hall.map _).nodup_iff).mpr facts.nodup⟩, hall
  have hact : ∀ record ∈ records, record.deletedAt.isNone := by
    intro record hrec
    apply (mem_filter.mp (hrecs.mem_iff.mp hrec)).2
  have hrest : activeRecords (facts.records.filter fun record => !record.deletedAt.isNone) = [] := by
    simp [activeRecords]
  rw [activeRecords, filter_append, filter_eq_self.mpr hact, ← activeRecords, hrest, append_nil]

theorem map_rebuiltSnapshot (records : List MemoryRecord) :
  (rebuiltSnapshot env records).documents.map MemoryIndexDocument.id =
    ((activeRecords records).map MemoryRecord.id).mergeSort env.localeCompare
  := by
  rw [rebuiltSnapshot, sortDocuments, ← map_activeDocuments]
  apply map_mergeSort
  intro _ _ _ _
  rfl

/-- An index that mirrors records in whatever order they are listed mirrors plain ones. -/
theorem plain_of_mirrors (hcomp : Comparison env.localeCompare)
    (h : ∀ listing : MemoryRecords, listing.records.Perm facts.records →
      ∃ snapshot, Mirrors env store listing w snapshot) :
  Plain env facts
  := by
  have hread (listing : MemoryRecords) (hperm : listing.records.Perm facts.records) :
      readSnapshot w.files.current = some (rebuiltSnapshot env listing.records) := by
    obtain ⟨snapshot, hmirrors⟩ := h listing hperm
    have hreb := hmirrors.rebuilt
    rw [indexed_holds.1] at hreb
    rw [hmirrors.accepted, Option.some.inj (Option.some.inj hreb)]
  constructor
  · intro record hrec
    have hvalid := (valid_of_readSnapshot (hread facts (Perm.refl _))).2
    have hmem : toDocument env record ∈ (rebuiltSnapshot env facts.records).documents := by
      apply mem_mergeSort.mpr
      exact mem_map_of_mem hrec
    apply (valid_iff _).mp
    exact all_eq_true.mp hvalid _ hmem
  by_contra htied
  have hnodup : ((activeRecords facts.records).map MemoryRecord.id).Nodup :=
    facts.nodup.sublist (filter_sublist.map _)
  obtain ⟨first, second, hfirst, hsecond, hne⟩ := exists_sort_ne hcomp hnodup htied
  obtain ⟨one, hone, rfl⟩ := exists_listing hfirst
  obtain ⟨two, htwo, rfl⟩ := exists_listing hsecond
  apply hne
  rw [← map_rebuiltSnapshot, ← map_rebuiltSnapshot]
  have hsame := (hread one hone).symm.trans (hread two htwo)
  rw [Option.some.inj hsame]

/-- After every part of a history the index is what indexing the remaining records from nothing
makes it, with the words of every document counted and healthy, exactly when after every part of
it no active record contains the word `constructor` and no two have tied ids. -/
theorem incremental_iff (facts : MemoryRecords) (calls : List IndexCall)
    (hcomp : Comparison env.localeCompare) :
  Incremental env store facts calls ↔ ∀ done, done <+: calls → Plain env (remaining facts done)
  := by
  constructor
  · intro h done hdone
    apply plain_of_mirrors hcomp (h done hdone)
  intro h done hdone listing hperm
  have hholds := history_holds store hcomp
    fun before hpre => h before (hpre.trans hdone)
  exact ⟨_, hholds.mirrors hcomp (h done hdone) hperm⟩

/-- For examples, words are runs of letters and digits in lower case. -/
def wordExternals : IndexExternals where
  tokenize s :=
    ((s.toList.map Char.toLower).splitOnP fun c => !c.isAlphanum).filterMap fun word =>
      if word = [] then none else some (String.ofList word)
  sha256 s := s
  localeCompare a b := decide (a ≤ b)

theorem comparison_wordExternals :
  Comparison wordExternals.localeCompare
  := by
  constructor
  · intro a b c hab hbc
    simp only [wordExternals, decide_eq_true_eq] at hab hbc ⊢
    apply hab.trans hbc
  · intro a b
    simp only [wordExternals, Bool.or_eq_true, decide_eq_true_eq]
    apply le_total

theorem incremental_iff_words :
  Incremental wordExternals ⟨false, false⟩ ⟨[], List.nodup_nil⟩
    [.upsert (sampleRecord "a" "To be or not to be")]
  := by
  apply (incremental_iff _ _ comparison_wordExternals).mpr
  intro done hdone
  rcases prefix_cons_iff.mp hdone with rfl | ⟨before, rfl, hpre⟩
  · constructor
    · decide
    · exact List.Pairwise.nil
  obtain rfl := prefix_nil.mp hpre
  constructor
  · decide +kernel
  · exact pairwise_singleton _ _

/-- The index of a record with the word `constructor` cannot be read. -/
theorem not_incremental :
  Comparison wordExternals.localeCompare ∧
    ¬ Incremental wordExternals ⟨false, false⟩ ⟨[], List.nodup_nil⟩
      [.upsert (sampleRecord "a" "The constructor is called")]
  := by
  use comparison_wordExternals
  intro h
  have hplain := plain_of_mirrors comparison_wordExternals (h _ (prefix_refl _))
  have hword : "constructor" ∈ wordExternals.tokenize
      (indexedText (sampleRecord "a" "The constructor is called")) := by decide +kernel
  apply hplain.words (sampleRecord "a" "The constructor is called") _ hword
  apply mem_singleton_self

end Storage
