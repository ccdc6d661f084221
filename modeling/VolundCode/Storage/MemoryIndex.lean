import VolundCode.Lib.Json
import VolundCode.Storage.MemoryRecord
import VolundCode.Storage.Snapshot

/-!
# The memory index

The index holds a document for every memory record that is not deleted. A mutation through the
indexing service sets a dirty marker, changes the facts, changes the index and clears the marker;
where the facts refuse the change it clears the marker again.

Whenever no mutation is in flight the marker is set or the index holds exactly the documents of
the facts, in every run of mutations that are `sound` (`fresh_of_sound`). A mutation that is
refused, or that changes the document of another record, clears the marker that an update of the
index that failed has left (`not_fresh`).
-/

namespace Storage

open Effect Fault Run List

/-- What the index uses of the platform: the words of a text (the runs of letters and digits of
its normalized lower case form), the hash of a text, and the order of identifiers. -/
structure IndexExternals where
  tokenize : String → List String
  sha256 : String → String
  localeCompare : String → String → Bool

/-! ### Documents -/

/-- How often a term occurs: a number, or the text that adding to an inherited property makes. -/
inductive Frequency where
  | number (n : ℕ)
  | text (s : String)
deriving DecidableEq

/-- One more. -/
def Frequency.succ : Frequency → Frequency
  | .number n => .number (n + 1)
  | .text s => .text (s ++ "1")

/-- The text of a property that plain objects inherit. Terms are runs of lower case letters and
digits, so this is the only such property that is a term. -/
def inherited (term : String) : Option String :=
  if term = "constructor" then some "function Object() \x7b [native code] \x7d" else none

/-- The terms counted so far and one more. -/
def countTerm (term : String) : List (String × Frequency) → List (String × Frequency)
  | [] =>
    match inherited term with
    | none => [(term, .number 1)]
    | some s => [(term, .text (s ++ "1"))]
  | (t, n) :: terms => if t = term then (t, n.succ) :: terms else (t, n) :: countTerm term terms

structure MemoryIndexDocument where
  id : String
  sourceDigest : String
  sourceUpdatedAt : String
  terms : List (String × Frequency)
deriving DecidableEq

def scopeJson : MemoryRecordScope → Json
  | .workspace w => .obj [("kind", .str "workspace"), ("workspaceId", .str w)]
  | .project w p =>
    .obj [("kind", .str "project"), ("workspaceId", .str w), ("projectId", .str p)]
  | .session w p s =>
    .obj [("kind", .str "session"), ("workspaceId", .str w), ("projectId", .str p),
      ("sessionId", .str s)]

/-- What the digest of a record is taken of. -/
def sourceJson (record : MemoryRecord) : Json :=
  .obj [("scope", scopeJson record.scope), ("content", .str record.content),
    ("tags", .arr (record.tags.map .str)), ("pinned", .bool record.pinned),
    ("updatedAt", .str record.updatedAt)]

variable (env : IndexExternals)

/-- What the words of a record are taken of. -/
def indexedText (record : MemoryRecord) : String :=
  record.content ++ "\n" ++ "\n".intercalate record.tags

def toDocument (record : MemoryRecord) : MemoryIndexDocument where
  id := record.id
  sourceDigest := env.sha256 (String.ofList (sourceJson record).stringify)
  sourceUpdatedAt := record.updatedAt
  terms := (env.tokenize (indexedText record)).foldl (fun terms term => countTerm term terms) []

/-- The documents in the order of their ids. -/
def sortDocuments (documents : List MemoryIndexDocument) : List MemoryIndexDocument :=
  documents.mergeSort fun left right => env.localeCompare left.id right.id

def fingerprintDocuments (documents : List MemoryIndexDocument) : String :=
  env.sha256 (String.ofList (Json.arr ((sortDocuments env documents).map fun document =>
    .obj [("id", .str document.id), ("sourceDigest", .str document.sourceDigest)])).stringify)

/-- The documents of the records that are not deleted. -/
def activeDocuments (records : List MemoryRecord) : List MemoryIndexDocument :=
  (records.filter fun record => record.deletedAt.isNone).map (toDocument env)

/-! ### The index and the facts -/

structure MemoryIndexSnapshot where
  sourceFingerprint : String
  documents : List MemoryIndexDocument

/-- What is in a file of the index: the text of a snapshot, or any other text. -/
abbrev IndexFile : Type := Option MemoryIndexSnapshot

def Frequency.valid : Frequency → Bool
  | .number n => 1 ≤ n
  | .text _ => false

def MemoryIndexDocument.valid (document : MemoryIndexDocument) : Bool :=
  document.terms.all fun term => term.2.valid

/-- The snapshot in a file that is there and can be read. -/
def readSnapshot (file : Option IndexFile) : Option MemoryIndexSnapshot :=
  file.join.filter fun snapshot => snapshot.documents.all MemoryIndexDocument.valid

/-- The records, the files of their index and its dirty marker, and whether the service has
started. -/
structure IndexedMemory where
  facts : MemoryRecords
  files : Directory IndexFile
  dirty : Bool
  started : Bool

/-- What the facts do with a mutation, with the records they have then: a mutation that throws may
have reached the disk. -/
inductive FactOutcome where
  | returns (record : MemoryRecord)
  | throws (facts : MemoryRecords)
  | crashes (facts : MemoryRecords)

/-- The steps of a mutation, besides those of saving a snapshot. -/
inductive MutationStep where
  | startFacts
  | loadSource
  | checkHealth
  | lockReindex
  | checkHealthAgain
  | afterBatch
  | clearRebuilt
  | checkHealthAfter
  | unlockReindex
  | openMarker
  | writeMarker
  | clearRefused
  | lockIndex
  | unlockIndex
  | clearMarker
deriving DecidableEq

/-- A mutation: what the facts do with it, and what becomes of the other steps. -/
structure Mutation where
  outcome : FactOutcome
  fate : MutationStep → Fate
  reindex : Faults IndexFile
  update : Faults IndexFile

/-- Whether `health` finds that the index matches the facts. -/
def healthy (w : IndexedMemory) : Bool :=
  match readSnapshot w.files.current with
  | none => false
  | some snapshot =>
    !w.dirty && (activeDocuments env w.facts.records).length = snapshot.documents.length &&
      fingerprintDocuments env (activeDocuments env w.facts.records) = snapshot.sourceFingerprint

variable (store : Store)

/-- A snapshot is saved, as the other stores save theirs. -/
def saveSnapshot (f : Faults IndexFile) (snapshot : MemoryIndexSnapshot) :
    Effect Stop IndexedMemory Unit :=
  focus IndexedMemory.files (fun files w => { w with files := files })
    (saveUnlocked store f (some snapshot))

def markDirty (a : Mutation) : Effect Stop IndexedMemory Unit := do
  Fault.attempt (a.fate .openMarker) fun w => { w with dirty := true }
  Fault.attempt (a.fate .writeMarker) id

def clearDirty (fate : Fate) : Effect Stop IndexedMemory Unit :=
  Fault.attempt fate fun w => { w with dirty := false }

/-- The snapshot of the index of all records. -/
def rebuiltSnapshot (records : List MemoryRecord) : MemoryIndexSnapshot where
  sourceFingerprint := fingerprintDocuments env (activeDocuments env records)
  documents := sortDocuments env (activeDocuments env records)

/-- The index of all records is written. -/
def rebuild (a : Mutation) : Effect Stop IndexedMemory Unit := do
  Fault.attempt (a.fate .checkHealthAgain) id
  let w ← get
  if healthy env w then pure ()
  else do
    Fault.attempt (a.fate .afterBatch) id
    saveSnapshot store a.reindex (rebuiltSnapshot env w.facts.records)
    clearDirty (a.fate .clearRebuilt)
    Fault.attempt (a.fate .checkHealthAfter) id

def reindex (a : Mutation) : Effect Stop IndexedMemory Unit := do
  Fault.attempt (a.fate .checkHealth) id
  let w ← get
  if healthy env w then pure ()
  else do
    Fault.attempt (a.fate .lockReindex) id
    ensuring (rebuild env store a) (Fault.attempt (a.fate .unlockReindex) id)

/-- The service starts with its first mutation. -/
def start (a : Mutation) : Effect Stop IndexedMemory Unit := do
  let w ← get
  if w.started then pure ()
  else do
    Fault.attempt (a.fate .startFacts) id
    Fault.attempt (a.fate .loadSource) id
    reindex env store a
    modify fun w => { w with started := true }

/-- The documents of other records. -/
def others (recordId : String) (documents : List MemoryIndexDocument) : List MemoryIndexDocument :=
  documents.filter fun document => document.id ≠ recordId

/-- The snapshot an update of the index starts from. -/
def requirePrimarySnapshot : Effect Stop IndexedMemory MemoryIndexSnapshot := do
  let w ← get
  match readSnapshot w.files.current with
  | some snapshot => pure snapshot
  | none => throw .thrown

/-- What is done to remove a document, under the lock. -/
def removeLocked (a : Mutation) (recordId : String) : Effect Stop IndexedMemory Unit := do
  let snapshot ← requirePrimarySnapshot
  let documents := others recordId snapshot.documents
  if documents.length = snapshot.documents.length then pure ()
  else
    saveSnapshot store a.update
      { sourceFingerprint := fingerprintDocuments env documents
        documents := documents }

def remove (a : Mutation) (recordId : String) : Effect Stop IndexedMemory Unit := do
  Fault.attempt (a.fate .lockIndex) id
  ensuring (removeLocked env store a recordId) (Fault.attempt (a.fate .unlockIndex) id)

/-- What is done to add a document or to replace it, under the lock. -/
def upsertLocked (a : Mutation) (record : MemoryRecord) : Effect Stop IndexedMemory Unit := do
  let snapshot ← requirePrimarySnapshot
  let documents := others record.id snapshot.documents ++ [toDocument env record]
  saveSnapshot store a.update
    { sourceFingerprint := fingerprintDocuments env documents
      documents := sortDocuments env documents }

def upsert (a : Mutation) (record : MemoryRecord) : Effect Stop IndexedMemory Unit :=
  if record.deletedAt.isSome then remove env store a record.id
  else do
    Fault.attempt (a.fate .lockIndex) id
    ensuring (upsertLocked env store a record) (Fault.attempt (a.fate .unlockIndex) id)

/-- The facts take the mutation, or refuse it. -/
def mutateFacts (a : Mutation) : Effect Stop IndexedMemory MemoryRecord :=
  match a.outcome with
  | .returns record => do
    modify fun w => { w with facts := w.facts.set record }
    pure record
  | .throws facts => do
    modify fun w => { w with facts := facts }
    clearDirty (a.fate .clearRefused)
    throw .thrown
  | .crashes facts => do
    modify fun w => { w with facts := facts }
    throw .crashed

/-- The index follows the facts. -/
def updateIndex (a : Mutation) (record : MemoryRecord) : Effect Stop IndexedMemory Unit :=
  if record.deletedAt.isSome then remove env store a record.id else upsert env store a record

def mutate (a : Mutation) : Effect Stop IndexedMemory MemoryRecord := do
  start env store a
  markDirty a
  let record ← mutateFacts a
  updateIndex env store a record
  clearDirty (a.fate .clearMarker)
  pure record

/-- The memory after a mutation. Where the process dies, another service has to start. -/
def mutation (w : IndexedMemory) (a : Mutation) : Option IndexedMemory :=
  match mutate env store a w with
  | .ok _ t => some t
  | .error .thrown t => some t
  | .error .crashed t => some { t with started := false }

/-! ### What is known of the index -/

/-- The index holds exactly the documents of the facts. -/
def Exact (w : IndexedMemory) : Prop :=
  ∃ snapshot, readSnapshot w.files.current = some snapshot ∧
    snapshot.documents.Perm (activeDocuments env w.facts.records)

/-- A service that has started has set the dirty marker, or its index is exact. -/
def Fresh (w : IndexedMemory) : Prop :=
  w.started → w.dirty ∨ Exact env w

instance (w : IndexedMemory) : Decidable (Exact env w) :=
  decidable_of_iff ((readSnapshot w.files.current).any fun snapshot =>
      snapshot.documents.isPerm (activeDocuments env w.facts.records))
    (by simp only [Exact, Option.any_eq_true, List.isPerm_iff])

instance (w : IndexedMemory) : Decidable (Fresh env w) :=
  inferInstanceAs (Decidable (_ → _))

/-- A snapshot in the file is one that the index has written: its fingerprint is that of its
documents, which are documents of records. -/
def Built (file : IndexFile) : Prop :=
  ∀ snapshot ∈ file, ∃ documents, documents.Perm snapshot.documents ∧
    snapshot.sourceFingerprint = fingerprintDocuments env documents ∧
      ∀ document ∈ documents, ∃ record, document = toDocument env record

/-! ### Mutations that are sound -/

/-- What the index holds when a mutation begins: a service that has not started first indexes all
facts. There is nothing if the index cannot be read. -/
def documentsBefore (w : IndexedMemory) : Option (List MemoryIndexDocument) :=
  if w.started then (readSnapshot w.files.current).map MemoryIndexSnapshot.documents
  else some (activeDocuments env w.facts.records)

/-- The dirty marker is set. -/
def Mutation.marks (a : Mutation) : Bool :=
  a.fate .openMarker = .done && a.fate .writeMarker = .done

/-- The index is updated, or needs no update. -/
def Mutation.updates (a : Mutation) (record : MemoryRecord)
    (documents : List MemoryIndexDocument) : Bool :=
  a.fate .lockIndex = .done && a.fate .unlockIndex = .done &&
    (a.update.saves store ||
      (record.deletedAt.isSome && documents.all fun document => document.id ≠ record.id))

/-- A mutation that clears the marker does not do so too early: one that updates the index starts
from an index that holds the documents of all other records, and its own document can be read
back; one that the facts refuse starts from an index that holds exactly the documents of the
facts. A service that has not started has facts whose documents can be read back. -/
def sound (w : IndexedMemory) (a : Mutation) : Bool :=
  (w.started || (activeDocuments env w.facts.records).all MemoryIndexDocument.valid) &&
    match a.outcome with
    | .returns record =>
      !(a.marks && a.fate .clearMarker = .done) ||
        match documentsBefore env w with
        | none => true
        | some documents =>
          !a.updates store record documents ||
            ((record.deletedAt.isSome || (toDocument env record).valid) &&
              (others record.id documents).isPerm
                (others record.id (activeDocuments env w.facts.records)))
    | .throws facts =>
      !(a.marks && a.fate .clearRefused = .done) ||
        match documentsBefore env w with
        | none => false
        | some documents => documents.isPerm (activeDocuments env facts.records)
    | .crashes _ => true

/-! ### Digests and fingerprints -/

variable {env store}

theorem ordered_scopeJson (scope : MemoryRecordScope) :
  (scopeJson scope).Ordered
  := by
  cases scope with
  | workspace w =>
    exact ⟨Json.assemble_of_names (by simp) (by simp; decide), trivial, trivial, trivial⟩
  | project w p =>
    exact ⟨Json.assemble_of_names (by simp) (by simp; decide), trivial, trivial, trivial, trivial⟩
  | session w p s =>
    exact ⟨Json.assemble_of_names (by simp) (by simp; decide), trivial, trivial, trivial, trivial,
      trivial⟩

theorem ordered_sourceJson (record : MemoryRecord) :
  (sourceJson record).Ordered
  := by
  use Json.assemble_of_names (by simp) (by simp; decide)
  use ordered_scopeJson record.scope
  use trivial
  use Json.orderedElements_iff.mpr (by simp [Json.Ordered])
  exact ⟨trivial, trivial, trivial⟩

/-- A document is determined by its id and its digest. -/
theorem toDocument_eq (hsha : Function.Injective env.sha256) {r q : MemoryRecord}
    (hid : (toDocument env r).id = (toDocument env q).id)
    (hdigest : (toDocument env r).sourceDigest = (toDocument env q).sourceDigest) :
  toDocument env r = toDocument env q
  := by
  have htext : (sourceJson r).stringify = (sourceJson q).stringify := by
    have h := congrArg String.toList (hsha hdigest)
    simpa using h
  have hjson := Json.eq_of_stringify_eq (ordered_sourceJson r) (ordered_sourceJson q) htext
  simp only [sourceJson, Json.obj.injEq, List.cons.injEq, Prod.mk.injEq, Json.str.injEq,
    Json.arr.injEq, true_and] at hjson
  have htags : r.tags = q.tags := map_injective_iff.mpr (fun a b h => Json.str.inj h) hjson.2.2.1
  have hwords : indexedText r = indexedText q := by rw [indexedText, indexedText, hjson.2.1, htags]
  simp only [toDocument] at hid ⊢
  rw [hid, htext, hwords, hjson.2.2.2.2.1]

/-- Documents of records with the same fingerprint are the same. -/
theorem perm_of_fingerprint (hsha : Function.Injective env.sha256)
    {xs ys : List MemoryIndexDocument} (hxs : ∀ x ∈ xs, ∃ record, x = toDocument env record)
    (hys : ∀ y ∈ ys, ∃ record, y = toDocument env record)
    (h : fingerprintDocuments env xs = fingerprintDocuments env ys) :
  xs.Perm ys
  := by
  have hord (zs : List MemoryIndexDocument) : (Json.arr (zs.map fun document =>
      .obj [("id", .str document.id), ("sourceDigest", .str document.sourceDigest)])).Ordered := by
    apply Json.orderedElements_iff.mpr
    intro v hv
    obtain ⟨z, _, rfl⟩ := mem_map.mp hv
    exact ⟨Json.assemble_of_names (by simp) (by simp; decide), trivial, trivial, trivial⟩
  have htext := congrArg String.toList (hsha h)
  rw [String.toList_ofList, String.toList_ofList] at htext
  have hjson := Json.eq_of_stringify_eq (hord _) (hord _) htext
  have hsorted : sortDocuments env xs = sortDocuments env ys := by
    have hx : ∀ x ∈ sortDocuments env xs, ∃ record, x = toDocument env record := fun x hx =>
      hxs x (mem_mergeSort.mp hx)
    have hy : ∀ y ∈ sortDocuments env ys, ∃ record, y = toDocument env record := fun y hy =>
      hys y (mem_mergeSort.mp hy)
    have hmap := Json.arr.inj hjson
    generalize sortDocuments env xs = us at hx hmap
    generalize sortDocuments env ys = vs at hy hmap
    induction us generalizing vs with
    | nil =>
      symm
      simpa using hmap
    | cons u us ih =>
    cases vs with
    | nil => simp at hmap
    | cons v vs =>
    simp only [map_cons, List.cons.injEq, Json.obj.injEq, Prod.mk.injEq, true_and,
      Json.str.injEq, and_true] at hmap
    obtain ⟨r, hr⟩ := hx u mem_cons_self
    obtain ⟨q, hq⟩ := hy v mem_cons_self
    have huv : u = v := by
      rw [hr, hq] at hmap ⊢
      apply toDocument_eq hsha hmap.1.1 hmap.1.2
    rw [huv, ih (fun x h => hx x (mem_cons_of_mem _ h)) vs
      (fun y h => hy y (mem_cons_of_mem _ h)) hmap.2]
  apply (mergeSort_perm xs _).symm.trans
  change (sortDocuments env xs).Perm ys
  rw [hsorted]
  apply mergeSort_perm

/-- What is healthy is exact. -/
theorem exact_of_healthy (hsha : Function.Injective env.sha256) {w : IndexedMemory}
    (hbuilt : w.files.All (Built env)) (h : healthy env w) :
  w.dirty = false ∧ Exact env w
  := by
  rw [healthy] at h
  cases hread : readSnapshot w.files.current with
  | none => simp [hread] at h
  | some snapshot =>
  simp only [hread, Bool.and_eq_true, Bool.not_eq_true', decide_eq_true_eq] at h
  use h.1.1, snapshot, hread
  have hcur : w.files.current = some (some snapshot) := by
    have hmem := (Option.filter_eq_some_iff.mp hread).1
    simpa [Option.join_eq_some_iff] using hmem
  obtain ⟨documents, hperm, hfingerprint, hdocs⟩ := hbuilt.1 _ hcur snapshot rfl
  apply hperm.symm.trans
  apply perm_of_fingerprint hsha hdocs
  · intro y hy
    obtain ⟨record, _, rfl⟩ := mem_map.mp hy
    use record
  · rw [← hfingerprint, h.2]

/-! ### What the steps of a mutation do -/

variable {w t : IndexedMemory} {a : Mutation}

/-- Only the files may differ. -/
structure SameButFiles (w t : IndexedMemory) : Prop where
  facts : t.facts = w.facts
  dirty : t.dirty = w.dirty
  started : t.started = w.started

theorem SameButFiles.refl (w : IndexedMemory) :
  SameButFiles w w
  := ⟨rfl, rfl, rfl⟩

variable {snapshot : MemoryIndexSnapshot}

theorem saveSnapshot_wp {f : Faults IndexFile}
    (hbuilt : w.files.All (Built env)) (hsnap : Built env (some snapshot)) :
  wp (saveSnapshot store f snapshot)
    (fun _ t => SameButFiles w t ∧ t.files.All (Built env) ∧ f.saves store ∧
      t.files.current = some (some snapshot))
    (fun _ t => SameButFiles w t ∧ t.files.All (Built env)) w
  := by
  rw [saveSnapshot, wp_focus]
  apply wp_mono (saveUnlocked_all hbuilt hsnap)
  · intro _ files h
    exact ⟨⟨rfl, rfl, rfl⟩, h.2.2, h.1, h.2.1⟩
  · intro _ files h
    exact ⟨⟨rfl, rfl, rfl⟩, h⟩

/-- What is written of documents of records is built. -/
theorem built_of_perm {documents sorted : List MemoryIndexDocument} (hperm : documents.Perm sorted)
    (h : ∀ document ∈ documents, ∃ record, document = toDocument env record) :
  Built env (some
    { sourceFingerprint := fingerprintDocuments env documents
      documents := sorted })
  := by
  rintro _ ⟨⟩
  exact ⟨documents, hperm, rfl, h⟩

theorem exists_of_mem_active {records : List MemoryRecord} {document : MemoryIndexDocument}
    (h : document ∈ activeDocuments env records) :
  ∃ record, document = toDocument env record
  := by
  obtain ⟨record, _, rfl⟩ := mem_map.mp h
  use record

/-- A snapshot whose documents can be read back is read back. -/
theorem readSnapshot_of_valid
    (h : snapshot.documents.all MemoryIndexDocument.valid) :
  readSnapshot (some (some snapshot)) = some snapshot
  := by
  rw [readSnapshot, Option.join_some, Option.filter_some, if_pos h]

theorem valid_of_readSnapshot {file : Option IndexFile} (h : readSnapshot file = some snapshot) :
  file = some (some snapshot) ∧ snapshot.documents.all MemoryIndexDocument.valid
  := by
  obtain ⟨hmem, hvalid⟩ := Option.filter_eq_some_iff.mp h
  use Option.join_eq_some_iff.mp hmem, hvalid

/-- After the index has been rebuilt it is exact. -/
theorem rebuild_wp (hsha : Function.Injective env.sha256) (hbuilt : w.files.All (Built env))
    (hvalid : (activeDocuments env w.facts.records).all MemoryIndexDocument.valid) :
  wp (rebuild env store a)
    (fun _ t => t.facts = w.facts ∧ t.started = w.started ∧ t.files.All (Built env) ∧
      t.dirty = false ∧ Exact env t)
    (fun _ t => t.facts = w.facts ∧ t.started = w.started ∧ t.files.All (Built env)) w
  := by
  rw [rebuild, wp_bind, wp_attempt]
  cases a.fate .checkHealthAgain with
  | crashes | fails => exact ⟨rfl, rfl, hbuilt⟩
  | done =>
  rw [wp_bind, wp_get, id, wp_ite]
  split_ifs with hhealthy
  · exact ⟨rfl, rfl, hbuilt, exact_of_healthy hsha hbuilt hhealthy⟩
  rw [wp_bind, wp_attempt]
  cases a.fate .afterBatch with
  | crashes | fails => exact ⟨rfl, rfl, hbuilt⟩
  | done =>
  rw [wp_bind]
  have hsorted : (rebuiltSnapshot env w.facts.records).documents.Perm
      (activeDocuments env w.facts.records) := mergeSort_perm _ _
  apply wp_mono (saveSnapshot_wp hbuilt
    (built_of_perm hsorted.symm fun _ => exists_of_mem_active))
  · rintro _ t ⟨hsame, hfiles, _, hcur⟩
    have hread : readSnapshot t.files.current = some (rebuiltSnapshot env w.facts.records) := by
      rw [hcur]
      apply readSnapshot_of_valid
      rw [hsorted.all_eq, hvalid]
    have hexact : Exact env { t with dirty := false } := by
      use rebuiltSnapshot env w.facts.records, hread
      change (rebuiltSnapshot env w.facts.records).documents.Perm
        (activeDocuments env t.facts.records)
      rw [hsame.facts]
      apply hsorted
    rw [wp_bind, clearDirty, wp_attempt]
    cases a.fate .clearRebuilt with
    | crashes | fails => exact ⟨hsame.facts, hsame.started, hfiles⟩
    | done =>
    rw [wp_attempt]
    cases a.fate .checkHealthAfter with
    | crashes | fails => exact ⟨hsame.facts, hsame.started, hfiles⟩
    | done => exact ⟨hsame.facts, hsame.started, hfiles, rfl, hexact⟩
  · intro _ t h
    exact ⟨h.1.facts, h.1.started, h.2⟩

/-- What is done also where a computation throws changes nothing here. -/
theorem ensuring_wp {x : Effect Stop IndexedMemory Unit} {fate : Fate}
    {Q : IndexedMemory → Prop} {E : IndexedMemory → Prop} (hQE : ∀ t, Q t → E t)
    (hx : wp x (fun _ t => Q t) (fun _ t => E t) w) :
  wp (ensuring x (Fault.attempt fate id)) (fun _ t => Q t ∧ fate = .done) (fun _ t => E t) w
  := by
  simp only [ensuring, wp_bind, wp_catching, wp_attempt, wp_throw]
  apply wp_mono hx
  · intro _ t ht
    cases fate with
    | done => exact ⟨ht, rfl⟩
    | _ => exact hQE t ht
  intro e t ht
  cases e with
  | crashed => apply ht
  | thrown =>
    cases fate with
    | _ => apply ht

/-- A service that has started has an index that is exact, if it was not started before. -/
theorem start_wp (hsha : Function.Injective env.sha256) (hbuilt : w.files.All (Built env))
    (hstart : w.started = false)
    (hvalid : (activeDocuments env w.facts.records).all MemoryIndexDocument.valid) :
  wp (start env store a)
    (fun _ t => t.facts = w.facts ∧ t.started ∧ t.files.All (Built env) ∧
      t.dirty = false ∧ Exact env t)
    (fun _ t => t.started = false ∧ t.files.All (Built env)) w
  := by
  rw [start, wp_bind, wp_get, hstart, if_neg Bool.false_ne_true, wp_bind, wp_attempt]
  cases a.fate .startFacts with
  | crashes | fails => exact ⟨hstart, hbuilt⟩
  | done =>
  simp only [wp_bind, wp_attempt, id]
  cases a.fate .loadSource with
  | crashes | fails => exact ⟨hstart, hbuilt⟩
  | done =>
  have hreindex : wp (reindex env store a)
      (fun _ t => t.facts = w.facts ∧ t.files.All (Built env) ∧ t.dirty = false ∧ Exact env t)
      (fun _ t => t.started = false ∧ t.files.All (Built env)) w := by
    rw [reindex, wp_bind, wp_attempt]
    cases a.fate .checkHealth with
    | crashes | fails => exact ⟨hstart, hbuilt⟩
    | done =>
    rw [wp_bind, wp_get, id, wp_ite]
    split_ifs with hhealthy
    · exact ⟨rfl, hbuilt, exact_of_healthy hsha hbuilt hhealthy⟩
    rw [wp_bind, wp_attempt]
    cases a.fate .lockReindex with
    | crashes | fails => exact ⟨hstart, hbuilt⟩
    | done =>
    apply wp_mono (ensuring_wp _ (rebuild_wp hsha hbuilt hvalid))
    · rintro _ t ⟨ht, _⟩
      exact ⟨ht.1, ht.2.2⟩
    · rintro _ t ht
      exact ⟨ht.2.1.trans hstart, ht.2.2⟩
    · intro t ht
      exact ⟨ht.1, ht.2.1, ht.2.2.1⟩
  apply wp_mono hreindex
  · intro _ t ht
    exact ⟨ht.1, rfl, ht.2⟩
  · intro _ t ht
    apply ht

/-- The documents of a snapshot that has been built are documents of records. -/
theorem exists_of_mem_built (h : Built env (some snapshot))
    {document : MemoryIndexDocument} (hmem : document ∈ snapshot.documents) :
  ∃ record, document = toDocument env record
  := by
  obtain ⟨documents, hperm, _, hdocs⟩ := h snapshot rfl
  apply hdocs
  apply hperm.mem_iff.mpr hmem

/-- An update reads the snapshot first, and fails if it cannot. -/
theorem requirePrimarySnapshot_wp {Q : MemoryIndexSnapshot → IndexedMemory → Prop}
    {E : Stop → IndexedMemory → Prop}
    (hread : ∀ snapshot, readSnapshot w.files.current = some snapshot → Q snapshot w)
    (hfail : E .thrown w) :
  wp requirePrimarySnapshot Q E w
  := by
  rw [requirePrimarySnapshot, wp_bind, wp_get]
  cases h : readSnapshot w.files.current with
  | some snapshot => apply hread snapshot h
  | none => apply hfail

/-- What an update of the index for `record` leaves. -/
structure Updated (env : IndexExternals) (store : Store) (a : Mutation) (record : MemoryRecord)
    (w t : IndexedMemory) : Prop where
  same : SameButFiles w t
  built : t.files.All (Built env)
  holds : ∃ before after, readSnapshot w.files.current = some before ∧
    t.files.current = some (some after) ∧
    (a.update.saves store || (record.deletedAt.isSome &&
      before.documents.all fun document => document.id ≠ record.id)) ∧
    after.documents.Perm (others record.id before.documents ++
      if record.deletedAt.isSome then [] else [toDocument env record])

section Updates

variable {record : MemoryRecord}

theorem removeLocked_wp (hbuilt : w.files.All (Built env)) (hdel : record.deletedAt.isSome) :
  wp (removeLocked env store a record.id) (fun _ t => Updated env store a record w t)
    (fun _ t => SameButFiles w t ∧ t.files.All (Built env)) w
  := by
  rw [removeLocked, wp_bind]
  apply requirePrimarySnapshot_wp
  · intro snapshot hread
    have hcur := (valid_of_readSnapshot hread).1
    have hsnap : Built env (some snapshot) := hbuilt.1 _ hcur
    rw [wp_ite]
    split_ifs with hlen
    · have hall : ∀ document ∈ snapshot.documents, decide (document.id ≠ record.id) :=
        length_filter_eq_length_iff.mp hlen
      have hoth : others record.id snapshot.documents = snapshot.documents :=
        filter_eq_self.mpr hall
      use SameButFiles.refl w, hbuilt, snapshot, snapshot, hread, hcur
      constructor
      · rw [hdel, all_eq_true.mpr hall]
        simp
      · rw [hoth, if_pos hdel, append_nil]
    apply wp_mono (saveSnapshot_wp hbuilt (built_of_perm (Perm.refl _) _))
    · rintro _ t ⟨hsame, hfiles, hsaves, hafter⟩
      refine ⟨hsame, hfiles, snapshot, _, hread, hafter, ?_⟩
      rw [hsaves, if_pos hdel, append_nil]
      exact ⟨rfl, Perm.refl _⟩
    · intro _ t h
      apply h
    · intro document hmem
      apply exists_of_mem_built hsnap (mem_of_mem_filter hmem)
  · exact ⟨SameButFiles.refl w, hbuilt⟩

theorem upsertLocked_wp (hbuilt : w.files.All (Built env))
    (hdel : record.deletedAt.isSome = false) :
  wp (upsertLocked env store a record) (fun _ t => Updated env store a record w t)
    (fun _ t => SameButFiles w t ∧ t.files.All (Built env)) w
  := by
  rw [upsertLocked, wp_bind]
  apply requirePrimarySnapshot_wp
  · intro snapshot hread
    have hsnap : Built env (some snapshot) := hbuilt.1 _ (valid_of_readSnapshot hread).1
    apply wp_mono (saveSnapshot_wp hbuilt (built_of_perm (mergeSort_perm _ _).symm _))
    · rintro _ t ⟨hsame, hfiles, hsaves, hafter⟩
      refine ⟨hsame, hfiles, snapshot, _, hread, hafter, ?_⟩
      rw [hsaves, hdel, if_neg Bool.false_ne_true]
      exact ⟨rfl, mergeSort_perm _ _⟩
    · intro _ t h
      apply h
    intro document hmem
    rcases mem_append.mp hmem with hold | hnew
    · apply exists_of_mem_built hsnap (mem_of_mem_filter hold)
    · use record, mem_singleton.mp hnew
  · exact ⟨SameButFiles.refl w, hbuilt⟩

/-- An update that is done leaves the index updated and has released the lock. -/
theorem update_wp (hbuilt : w.files.All (Built env)) :
  wp (updateIndex env store a record)
    (fun _ t => Updated env store a record w t ∧ a.fate .lockIndex = .done ∧
      a.fate .unlockIndex = .done)
    (fun _ t => SameButFiles w t ∧ t.files.All (Built env)) w
  := by
  have hsame : SameButFiles w w ∧ w.files.All (Built env) := ⟨SameButFiles.refl w, hbuilt⟩
  have hlocked {x : Effect Stop IndexedMemory Unit}
      (hx : wp x (fun _ t => Updated env store a record w t)
        (fun _ t => SameButFiles w t ∧ t.files.All (Built env)) w) :
      wp (do Fault.attempt (a.fate .lockIndex) id; ensuring x (Fault.attempt (a.fate .unlockIndex) id))
        (fun _ t => Updated env store a record w t ∧ a.fate .lockIndex = .done ∧
          a.fate .unlockIndex = .done)
        (fun _ t => SameButFiles w t ∧ t.files.All (Built env)) w := by
    rw [wp_bind, wp_attempt]
    cases hlock : a.fate .lockIndex with
    | crashes | fails => exact hsame
    | done =>
    apply wp_mono (ensuring_wp (fun t ht => ⟨ht.same, ht.built⟩) hx)
    · rintro _ t ⟨ht, hunlock⟩
      exact ⟨ht, rfl, hunlock⟩
    · intro _ t ht
      apply ht
  rw [updateIndex, wp_ite]
  split_ifs with hdel
  · apply hlocked (removeLocked_wp hbuilt hdel)
  · rw [upsert, if_neg hdel]
    apply hlocked (upsertLocked_wp hbuilt (by simpa using hdel))

/-- The documents of the facts with a record among them. -/
theorem activeDocuments_set (facts : MemoryRecords) :
  (activeDocuments env (facts.set record).records).Perm
    (others record.id (activeDocuments env facts.records) ++
      if record.deletedAt.isSome then [] else [toDocument env record])
  := by
  have hoth : others record.id (activeDocuments env facts.records) =
      activeDocuments env (facts.records.filter fun r => r.id ≠ record.id) := by
    rw [others, activeDocuments, activeDocuments, filter_map, filter_filter, filter_filter]
    congr 1
    apply filter_congr
    intro r _
    exact Bool.and_comm _ _
  have hperm : (activeDocuments env (facts.set record).records).Perm
      (activeDocuments env (record :: facts.records.filter fun r => r.id ≠ record.id)) :=
    ((perm_setRecord facts.nodup).filter _).map _
  apply hperm.trans
  rw [hoth, activeDocuments, filter_cons]
  cases hdel : record.deletedAt with
  | none =>
    rw [if_pos Option.isNone_none, map_cons, if_neg (by simp)]
    exact (perm_append_singleton _ _).symm
  | some at' => simp [activeDocuments]

end Updates

/-! ### Runs of mutations -/

/-- The memory when a mutation has begun: the service has started, and the index holds what it
held before. -/
structure Begun (env : IndexExternals) (w m : IndexedMemory) : Prop where
  facts : m.facts = w.facts
  started : m.started
  built : m.files.All (Built env)
  fresh : Fresh env m
  documents : ∀ documents, documentsBefore env w = some documents →
    ∃ snapshot, readSnapshot m.files.current = some snapshot ∧ snapshot.documents.Perm documents
  unread : documentsBefore env w = none → readSnapshot m.files.current = none

theorem start_begun (hsha : Function.Injective env.sha256) (hbuilt : w.files.All (Built env))
    (hfresh : Fresh env w) (hvalid : w.started = false →
      (activeDocuments env w.facts.records).all MemoryIndexDocument.valid) :
  wp (start env store a) (fun _ m => Begun env w m)
    (fun _ t => t.started = false ∧ t.files.All (Built env)) w
  := by
  cases hstart : w.started with
  | true =>
    rw [start, wp_bind, wp_get, if_pos hstart, wp_pure]
    refine ⟨rfl, hstart, hbuilt, hfresh, ?_, ?_⟩
    · intro documents hdocs
      rw [documentsBefore, if_pos hstart, Option.map_eq_some_iff] at hdocs
      obtain ⟨snapshot, hread, rfl⟩ := hdocs
      use snapshot, hread
    · intro hnone
      rwa [documentsBefore, if_pos hstart, Option.map_eq_none_iff] at hnone
  | false =>
  have hpre : documentsBefore env w = some (activeDocuments env w.facts.records) := by
    rw [documentsBefore, if_neg (by simp [hstart])]
  apply wp_mono (start_wp hsha hbuilt hstart (hvalid hstart))
  · rintro _ m ⟨hfacts, hmstarted, hmbuilt, hdirty, hexact⟩
    refine ⟨hfacts, hmstarted, hmbuilt, fun _ => Or.inr hexact, ?_, ?_⟩
    · intro documents hdocs
      obtain rfl := Option.some.inj (hpre.symm.trans hdocs)
      rw [← hfacts]
      apply hexact
    · intro hnone
      simp [hpre] at hnone
  · intro _ t ht
    apply ht

/-- After an update that is sound the index is exact. -/
theorem exact_of_updated {m : IndexedMemory} {record : MemoryRecord} (hbegun : Begun env w m)
    (hout : a.outcome = .returns record) (hmarks : a.marks)
    (hclear : a.fate .clearMarker = .done) (hlock : a.fate .lockIndex = .done)
    (hunlock : a.fate .unlockIndex = .done) (hsound : sound env store w a) {u : IndexedMemory}
    (ht : Updated env store a record u t) (hfiles : u.files = m.files)
    (hfacts : u.facts = m.facts.set record) :
  Exact env t
  := by
  obtain ⟨before, after, hpre, hafter, hsaves, hperm⟩ := ht.holds
  rw [hfiles] at hpre
  cases hdocs : documentsBefore env w with
  | none => simp [hbegun.unread hdocs] at hpre
  | some documents =>
  obtain ⟨snapshot, hread, hsnap⟩ := hbegun.documents documents hdocs
  obtain rfl := Option.some.inj (hread.symm.trans hpre)
  have hupd : a.updates store record documents := by
    rw [Mutation.updates, hlock, hunlock, ← hsnap.all_eq, hsaves]
    simp
  simp only [sound, hout, hmarks, hclear, hdocs, hupd, decide_true, Bool.and_self,
    Bool.not_true, Bool.false_or, Bool.and_eq_true, Bool.or_eq_true, isPerm_iff] at hsound
  obtain ⟨hvalid, hoth⟩ := hsound.2
  have hagree : (others record.id snapshot.documents).Perm
      (others record.id (activeDocuments env m.facts.records)) := by
    rw [hbegun.facts]
    apply (hsnap.filter _).trans hoth
  have hexact : after.documents.Perm (activeDocuments env t.facts.records) := by
    rw [ht.same.facts, hfacts]
    apply hperm.trans ((hagree.append_right _).trans (activeDocuments_set m.facts).symm)
  use after, ?_, hexact
  rw [hafter]
  apply readSnapshot_of_valid
  rw [hperm.all_eq, all_append, Bool.and_eq_true]
  constructor
  · have hall := (valid_of_readSnapshot hread).2
    rw [all_eq_true] at hall ⊢
    intro document hmem
    apply hall _ (mem_of_mem_filter hmem)
  split_ifs with hdel
  · rfl
  · have hrec := hvalid.resolve_left hdel
    simp [hrec]

/-- A mutation that is sound keeps the memory fresh. -/
theorem mutate_fresh (hsha : Function.Injective env.sha256) (hbuilt : w.files.All (Built env))
    (hfresh : Fresh env w) (hsound : sound env store w a) :
  wp (mutate env store a) (fun _ t => t.files.All (Built env) ∧ Fresh env t)
    (fun e t => t.files.All (Built env) ∧ (e = .thrown → Fresh env t)) w
  := by
  have hvalid : w.started = false →
      (activeDocuments env w.facts.records).all MemoryIndexDocument.valid := by
    intro hstart
    simp only [sound, hstart, Bool.false_or, Bool.and_eq_true] at hsound
    apply hsound.1
  rw [mutate, wp_bind]
  apply wp_mono (start_begun hsha hbuilt hfresh hvalid)
  · intro _ m hbegun
    rw [markDirty, wp_bind, wp_bind, wp_attempt]
    cases hopen : a.fate .openMarker with
    | crashes => exact ⟨hbegun.built, fun h => by cases h⟩
    | fails => exact ⟨hbegun.built, fun _ => hbegun.fresh⟩
    | done =>
    simp only [wp_attempt]
    cases hwrite : a.fate .writeMarker with
    | crashes => exact ⟨hbegun.built, fun h => by cases h⟩
    | fails => exact ⟨hbegun.built, fun _ _ => Or.inl rfl⟩
    | done =>
    have hmarks : a.marks := by simp [Mutation.marks, hopen, hwrite]
    rw [wp_bind, mutateFacts]
    cases hout : a.outcome with
    | crashes facts => exact ⟨hbegun.built, fun h => by cases h⟩
    | throws facts =>
      simp only [wp_bind, wp_modify, clearDirty, wp_attempt, wp_throw]
      cases hclear : a.fate .clearRefused with
      | crashes => exact ⟨hbegun.built, fun h => by cases h⟩
      | fails => exact ⟨hbegun.built, fun _ _ => Or.inl rfl⟩
      | done =>
      use hbegun.built
      intro _ _
      right
      simp only [sound, hout, hmarks, hclear, decide_true, Bool.and_self,
        Bool.not_true, Bool.false_or, Bool.and_eq_true] at hsound
      cases hdocs : documentsBefore env w with
      | none => simp [hdocs] at hsound
      | some documents =>
      rw [hdocs] at hsound
      obtain ⟨snapshot, hread, hperm⟩ := hbegun.documents documents hdocs
      use snapshot, hread
      apply hperm.trans (isPerm_iff.mp hsound.2)
    | returns record =>
    have hmutated : ({ m with
        dirty := true
        facts := m.facts.set record } : IndexedMemory).files.All (Built env) :=
      hbegun.built
    simp only [wp_bind, wp_modify, wp_pure]
    apply wp_mono (update_wp hmutated)
    · rintro _ t ⟨ht, hlock, hunlock⟩
      have hdirty : t.dirty := ht.same.dirty
      rw [wp_bind, clearDirty, wp_attempt]
      cases hclear : a.fate .clearMarker with
      | crashes => exact ⟨ht.built, fun h => by cases h⟩
      | fails => exact ⟨ht.built, fun _ _ => Or.inl hdirty⟩
      | done =>
      use ht.built
      intro _
      right
      have hexact := exact_of_updated hbegun hout hmarks hclear hlock hunlock
        hsound ht rfl rfl
      exact hexact
    intro e t ht
    use ht.2
    intro _ _
    left
    apply ht.1.dirty
  intro e t ht
  use ht.2
  intro _ hstart
  simp [ht.1] at hstart

/-- In a run of mutations that are sound, from files that the index has written, the dirty marker
is set or the index holds exactly the documents of the facts whenever no mutation is in flight. -/
theorem fresh_of_sound (hsha : Function.Injective env.sha256) {actions : List Mutation}
    (hbuilt : w.files.All (Built env)) (hfresh : Fresh env w)
    (hok : Guarded (mutation env store) (fun w a => sound env store w a) w actions)
    (hrun : run (mutation env store) w actions = some t) :
  Fresh env t
  := by
  have hstep (w : IndexedMemory) (a : Mutation) (t : IndexedMemory)
      (hw : w.files.All (Built env) ∧ Fresh env w) (hsound : sound env store w a)
      (hmut : mutation env store w a = some t) :
      t.files.All (Built env) ∧ Fresh env t := by
    have h := mutate_fresh hsha hw.1 hw.2 hsound
    rw [mutation] at hmut
    cases hmutate : mutate env store a w with
    | ok record u =>
      rw [hmutate] at hmut
      cases hmut
      have hu := wp_ok h hmutate
      exact hu
    | error e u =>
    rw [hmutate] at hmut
    have hu := wp_error h hmutate
    cases e with
    | thrown =>
      cases hmut
      exact ⟨hu.1, hu.2 rfl⟩
    | crashed =>
      cases hmut
      exact ⟨hu.1, nofun⟩
  exact (hok.invariant hstep ⟨hbuilt, hfresh⟩ hrun).2

/-- For examples, a text is one word and its own hash. -/
def sampleIndexExternals : IndexExternals where
  tokenize s := [s]
  sha256 s := s
  localeCompare _ _ := true

/-- A record for examples. -/
def sampleRecord (id content : String) : MemoryRecord where
  id := id
  scope := .workspace "w"
  content := content
  provenance := ⟨.user, none, none, none⟩
  attachments := []
  tags := []
  pinned := false
  createdAt := "2026-01-01T00:00:00.000Z"
  updatedAt := "2026-01-01T00:00:00.000Z"
  deletedAt := none

/-- A mutation all of whose steps are done, but for those of saving the index. -/
def sampleMutation (outcome : FactOutcome) (fate : Operation → Fate) : Mutation where
  outcome := outcome
  fate _ := .done
  reindex := ⟨fun _ => .done, none⟩
  update := ⟨fate, none⟩

/-- A memory without records that has not started. -/
def sampleMemory : IndexedMemory where
  facts := ⟨[], List.nodup_nil⟩
  files := .new
  dirty := false
  started := false

/-- Two records are created, and the index is not updated for the second one. -/
def missedUpdate : List Mutation :=
  [sampleMutation (.returns (sampleRecord "a" "first")) fun _ => .done,
    sampleMutation (.returns (sampleRecord "b" "second"))
      fun op => if op = .replaceCurrent then .fails else .done]

theorem fresh_of_sound_missedUpdate :
  ∃ t, run (mutation sampleIndexExternals ⟨false, false⟩) sampleMemory
      (missedUpdate ++ [sampleMutation (.returns (sampleRecord "b" "again")) fun _ => .done]) =
      some t ∧ Fresh sampleIndexExternals t
  := by
  have hsome : (run (mutation sampleIndexExternals ⟨false, false⟩) sampleMemory
      (missedUpdate ++ [sampleMutation (.returns (sampleRecord "b" "again"))
        fun _ => .done])).isSome := by decide +kernel
  obtain ⟨t, hrun⟩ := Option.isSome_iff_exists.mp hsome
  use t, hrun
  have hbuilt : sampleMemory.files.All (Built sampleIndexExternals) := by
    constructor
    all_goals simp [sampleMemory, Directory.new]
  have hfresh : Fresh sampleIndexExternals sampleMemory := by simp [Fresh, sampleMemory]
  apply fresh_of_sound (fun _ _ h => h) hbuilt hfresh _ hrun
  decide +kernel

/-- A mutation that the facts refuse clears the marker of an update that was missed. -/
theorem not_fresh :
  ∃ t, run (mutation sampleIndexExternals ⟨false, false⟩) sampleMemory
      (missedUpdate ++ [sampleMutation (.throws ⟨[sampleRecord "a" "first",
        sampleRecord "b" "second"], by decide⟩) fun _ => .done]) = some t ∧
    ¬ Fresh sampleIndexExternals t
  := by
  have hany : (run (mutation sampleIndexExternals ⟨false, false⟩) sampleMemory
      (missedUpdate ++ [sampleMutation (.throws ⟨[sampleRecord "a" "first",
        sampleRecord "b" "second"], by decide⟩) fun _ => .done])).any
      (fun t => ¬ Fresh sampleIndexExternals t) = true := by decide +kernel
  obtain ⟨t, hrun, ht⟩ := Option.any_eq_true _ _ |>.mp hany
  exact ⟨t, hrun, of_decide_eq_true ht⟩

end Storage
