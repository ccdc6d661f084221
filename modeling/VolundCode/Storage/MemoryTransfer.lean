import VolundCode.Storage.MemoryVersions

/-!
# Importing memory records

`MemoryTransferService.import` plans what to do for each record of a document, writes a journal of
what was there before, and then updates and creates one record after the other. If one of these
calls throws, what has been applied is undone; if the process stops, the next start undoes all that
the journal names. The user goes on changing records meanwhile.

Undoing goes by the ids of the plan: it deletes a record that it finds under the id of one that was
to be created, and puts back what was there before with an update, which the hooks may reject. What
the journal says of a record stays true of it under every step of an import (`Undoable`).
-/

namespace Storage

open Run List MemoryRecords

/-! ### Plans -/

inductive ImportStrategy where
  | skip
  | overwrite
  | rename
deriving DecidableEq

inductive PlannedAction where
  | create
  | skip
  | overwrite
deriving DecidableEq

structure PlannedImport where
  source : MemoryRecord
  id : String
  action : PlannedAction
  before : Option MemoryRecord
deriving DecidableEq

/-- `get`: the record with an id, if the scope may see it. -/
def visibleTo (env : ServiceExternals) (records : MemoryRecords) (scope : MemoryRecordScope)
    (id : String) : Option MemoryRecord :=
  (records.get id).filter fun record => env.canAccess scope record.scope

/-- The record with an id, if the scope may see it and it is not a tombstone. -/
def presentTo (env : ServiceExternals) (records : MemoryRecords) (scope : MemoryRecordScope)
    (id : String) : Option MemoryRecord :=
  (visibleTo env records scope id).filter fun record => !record.isDeleted

/-- The id of a renamed record. -/
def renamedId (id : String) (suffix : ℕ) : String :=
  id ++ "-import-" ++ toString suffix

/-- The first id that is neither reserved nor taken. There are fewer ids of these kinds than there
are suffixes to try. -/
def freeId (env : ServiceExternals) (records : MemoryRecords) (scope : MemoryRecordScope)
    (reserved : List String) (id : String) : String :=
  (((List.range (reserved.length + records.records.length + 1)).map fun k =>
    renamedId id (k + 1)).find? fun candidate =>
      !reserved.contains candidate && (visibleTo env records scope candidate).isNone).getD ""

/-- What to do for one record of the document, and the ids that are reserved afterwards. -/
def planOne (env : ServiceExternals) (records : MemoryRecords) (scope : MemoryRecordScope)
    (strategy : ImportStrategy) (reserved : List String) (source : MemoryRecord) :
    PlannedImport × List String :=
  match presentTo env records scope source.id with
  | none =>
    ({ source := source, id := source.id, action := .create, before := none },
      source.id :: reserved)
  | some existing =>
    match strategy with
    | .skip =>
      ({ source := source, id := source.id, action := .skip, before := some existing }, reserved)
    | .overwrite =>
      ({ source := source, id := source.id, action := .overwrite, before := some existing },
        reserved)
    | .rename =>
      let id := freeId env records scope reserved source.id
      ({ source := source, id := id, action := .create, before := none }, id :: reserved)

/-- `#plan`, without the records that are skipped. -/
def planImport (env : ServiceExternals) (records : MemoryRecords) (scope : MemoryRecordScope)
    (strategy : ImportStrategy) : List String → List MemoryRecord → List PlannedImport
  | _, [] => []
  | reserved, source :: sources =>
    let planned := planOne env records scope strategy reserved source
    let rest := planImport env records scope strategy planned.2 sources
    if planned.1.action = .skip then rest else planned.1 :: rest

/-! ### Applying and undoing -/

def importedProvenance (provenance : MemoryProvenance) (actorId : String) : MemoryProvenance where
  source := .imported
  actorId := some actorId
  sourceId := provenance.sourceId.filter (· ≠ "")
  importedFrom := some
    { source := provenance.source
      actorId := provenance.actorId.filter (· ≠ "")
      sourceId := provenance.sourceId.filter (· ≠ "") }

/-- The attachments of an imported record: those that were active are invalidated. -/
def importedAttachments (attachments : List MemoryRecordAttachment) (time : String) :
    List MemoryRecordAttachment :=
  attachments.map fun a =>
    if a.state = .active then { a with state := .invalidated, invalidatedAt := some time } else a

/-- The call that applies one step of the plan. -/
def PlannedImport.mutation (operation : PlannedImport) (scope : MemoryRecordScope)
    (actorId time : String) : MemoryMutation :=
  let provenance := importedProvenance operation.source.provenance actorId
  let attachments := importedAttachments operation.source.attachments time
  if operation.action = .overwrite then
    .update scope operation.id
      { content := some operation.source.content
        tags := some operation.source.tags
        pinned := some operation.source.pinned
        provenance := some provenance
        attachments := some attachments }
      none
  else
    .create
      { id := operation.id
        scope := scope
        content := operation.source.content
        provenance := provenance
        tags := some operation.source.tags
        pinned := some operation.source.pinned
        attachments := some attachments }

/-- What the journal keeps of a step of the plan. -/
structure Undo where
  id : String
  before : Option MemoryRecord
deriving DecidableEq

def PlannedImport.undo (operation : PlannedImport) : Undo where
  id := operation.id
  before := operation.before

/-- The update that puts back what a record was. -/
def restoring (before : MemoryRecord) : MemoryPatch where
  content := some before.content
  tags := some before.tags
  pinned := some before.pinned
  provenance := some before.provenance
  attachments := some before.attachments

/-- The call that `#rollback` makes for one step, if it makes one. -/
def Undo.mutation (env : ServiceExternals) (records : MemoryRecords) (scope : MemoryRecordScope)
    (undo : Undo) : Option MemoryMutation :=
  match presentTo env records scope undo.id with
  | none => none
  | some _ =>
    match undo.before with
    | none => some (.delete scope undo.id none)
    | some before => some (.update scope undo.id (restoring before) none)

/-- How the save of a call ends: it may fail with nothing done, or throw after it was done. -/
inductive Outcome where
  | saved
  | failed
  | lost
deriving DecidableEq

/-- The records after a call of the memory service, and whether it returns without an error. -/
def attempt (env : ServiceExternals) (records : MemoryRecords)
    (verdict : Except MemoryError Unit) (now : ℤ) (mutation : MemoryMutation)
    (outcome : Outcome) : MemoryRecords × Bool :=
  match evaluate env records verdict now mutation with
  | .error _ => (records, false)
  | .ok change =>
    match outcome with
    | .saved => (change.apply records, true)
    | .failed => (records, false)
    | .lost => (change.apply records, false)

/-! ### Imports -/

/-- Where an import is: it has not begun, it has a plan, it is applying its plan, it is undoing what
was applied, it is interrupted, it is being recovered, or it is over. -/
inductive TransferPhase where
  | idle
  | planned
  | applying (done rest : List PlannedImport)
  | rolling (rest : List Undo)
  | stopped
  | recovering (rest : List Undo)
  | finished
  | failed
  | recovered
  | stuck
deriving DecidableEq

/-- The records with an import that is under way. `aside` is what the records would be had there
been no import. -/
structure MemoryTransfer where
  stored : MemoryRecords
  aside : MemoryRecords
  scope : MemoryRecordScope
  plan : List PlannedImport
  journal : Option (List Undo)
  phase : TransferPhase

/-- The records before an import. -/
def MemoryTransfer.start (stored : MemoryRecords) (scope : MemoryRecordScope) :
    MemoryTransfer where
  stored := stored
  aside := stored
  scope := scope
  plan := []
  journal := none
  phase := .idle

/-- What happens to the import between two awaits, and what users do. -/
inductive TransferAction where
  | user (mutation : MemoryMutation) (verdict : Except MemoryError Unit) (now : ℤ)
  | plan (strategy : ImportStrategy) (sources : List MemoryRecord)
  | begin
  | apply (verdict : Except MemoryError Unit) (now : ℤ) (time : ℤ) (outcome : Outcome)
  | throws
  | undo (verdict : Except MemoryError Unit) (now : ℤ) (outcome : Outcome)
  | clear
  | stop
  | recover

section Transfer

variable (env : ServiceExternals) (journaled : Bool) (actorId : String)

/-- The journal and the phase of an import in which something has thrown. -/
def MemoryTransfer.rollBack (s : MemoryTransfer) (done : List PlannedImport) : MemoryTransfer :=
  { s with phase := .rolling (done.reverse.map PlannedImport.undo) }

/-- One step of the plan is applied. -/
def MemoryTransfer.apply (s : MemoryTransfer) (verdict : Except MemoryError Unit) (now time : ℤ)
    (outcome : Outcome) (done : List PlannedImport) (operation : PlannedImport)
    (rest : List PlannedImport) : MemoryTransfer :=
  match isoDate time with
  | .error _ => s.rollBack done
  | .ok time =>
    let result := attempt env s.stored verdict now (operation.mutation s.scope actorId time) outcome
    let t := { s with stored := result.1 }
    if result.2 then { t with phase := .applying (done ++ [operation]) rest } else t.rollBack done

/-- One step is undone, if it has to be: the records, and whether nothing has thrown. -/
def MemoryTransfer.undone (s : MemoryTransfer) (verdict : Except MemoryError Unit) (now : ℤ)
    (outcome : Outcome) (undo : Undo) : MemoryRecords × Bool :=
  match undo.mutation env s.stored s.scope with
  | none => (s.stored, true)
  | some mutation => attempt env s.stored verdict now mutation outcome

/-- One step of an import, if it can be taken. -/
def transferStep (s : MemoryTransfer) : TransferAction → Option MemoryTransfer
  | .user mutation verdict now =>
    some
      { s with
        stored := (attempt env s.stored verdict now mutation .saved).1
        aside := (attempt env s.aside verdict now mutation .saved).1 }
  | .plan strategy sources =>
    match s.phase with
    | .idle =>
      if (sources.map MemoryRecord.id).Nodup then
        some
          { s with
            plan := planImport env s.stored s.scope strategy [] sources
            phase := .planned }
      else none
    | _ => none
  | .begin =>
    match s.phase with
    | .planned =>
      some
        { s with
          journal := if journaled then some (s.plan.map PlannedImport.undo) else none
          phase := .applying [] s.plan }
    | _ => none
  | .apply verdict now time outcome =>
    match s.phase with
    | .applying done (operation :: rest) =>
      some (s.apply env actorId verdict now time outcome done operation rest)
    | _ => none
  | .throws =>
    match s.phase with
    | .planned => some { s with phase := .failed }
    | .applying done _ => some (s.rollBack done)
    | _ => none
  | .undo verdict now outcome =>
    match s.phase with
    | .rolling (undo :: rest) =>
      let result := s.undone env verdict now outcome undo
      some
        { s with
          stored := result.1
          phase := if result.2 then .rolling rest else .stopped }
    | .recovering (undo :: rest) =>
      let result := s.undone env verdict now outcome undo
      some
        { s with
          stored := result.1
          phase := if result.2 then .recovering rest else .stuck }
    | _ => none
  | .clear =>
    match s.phase with
    | .applying _ [] => some { s with journal := none, phase := .finished }
    | .rolling [] => some { s with journal := none, phase := .failed }
    | .recovering [] => some { s with journal := none, phase := .recovered }
    | _ => none
  | .stop =>
    match s.phase with
    | .idle | .finished | .failed | .recovered | .stuck => none
    | _ => some { s with phase := .stopped }
  | .recover =>
    match s.phase with
    | .stopped =>
      match s.journal with
      | none => some { s with phase := .recovered }
      | some undos => some { s with phase := .recovering undos.reverse }
    | _ => none

end Transfer

/-! ### What an import leaves -/

/-- A record without its version. -/
def MemoryRecord.versionless (record : MemoryRecord) : MemoryRecord :=
  { record with updatedAt := "" }

/-- What can be seen of a record, if it is there and not a tombstone. -/
def seen (record : Option MemoryRecord) : Option MemoryRecord :=
  (record.filter fun record => !record.isDeleted).map MemoryRecord.versionless

/-- What can be seen of the record with an id. -/
def visibleRecord (records : MemoryRecords) (id : String) : Option MemoryRecord :=
  seen (records.get id)

/-- The record is what a step of the plan makes of its source. -/
structure PlannedImport.Imported (env : ServiceExternals) (scope : MemoryRecordScope)
    (actorId : String) (operation : PlannedImport) (record : MemoryRecord) : Prop where
  present : record.isDeleted = false
  accessible : env.canAccess scope record.scope
  content : record.content = operation.source.content
  tags : normalizeTags operation.source.tags = .ok record.tags
  pinned : record.pinned = operation.source.pinned
  provenance : record.provenance = importedProvenance operation.source.provenance actorId
  attachments : ∃ time, record.attachments = importedAttachments operation.source.attachments time

/-- The ids of the plan. -/
def MemoryTransfer.ids (s : MemoryTransfer) : List String :=
  s.plan.map PlannedImport.id

/-- All records of the plan have been imported, and the others are as they would be without. -/
structure AllImported (env : ServiceExternals) (actorId : String) (s : MemoryTransfer) :
    Prop where
  imported : ∀ operation ∈ s.plan, ∃ record, s.stored.get operation.id = some record ∧
    operation.Imported env s.scope actorId record
  others : ∀ id ∉ s.ids, s.stored.get id = s.aside.get id

/-- All records that can be seen are as they would be without the import. -/
def NoneImported (s : MemoryTransfer) : Prop :=
  ∀ id, visibleRecord s.stored id = visibleRecord s.aside id

/-- All or nothing has been imported. -/
def Atomic (env : ServiceExternals) (actorId : String) (s : MemoryTransfer) : Prop :=
  AllImported env actorId s ∨ NoneImported s

/-- The import is over, or its recovery has failed. -/
def TransferPhase.over : TransferPhase → Bool
  | .finished | .failed | .recovered | .stuck => true
  | _ => false

/-- Something has been applied that is not undone yet. -/
def TransferPhase.unsettled : TransferPhase → Bool
  | .applying (_ :: _) _ | .rolling (_ :: _) => true
  | _ => false

/-- The step is one that an import survives: users keep away from the planned ids, what is to be
overwritten has the tags that the service would give it, a call that throws has done nothing, what
is undone is admitted, and an import that stops with something applied has a journal. -/
def orderly (env : ServiceExternals) (journaled : Bool) (s : MemoryTransfer) :
    TransferAction → Bool
  | .user mutation _ _ =>
    match mutation.target with
    | some id => !s.ids.contains id
    | none => s.phase = .idle
  | .plan strategy sources =>
    (planImport env s.stored s.scope strategy [] sources).all fun operation =>
      operation.before.all fun before => (normalizeTags before.tags).toOption = some before.tags
  | .apply _ _ _ outcome => outcome ≠ .lost
  | .undo verdict now outcome =>
    match s.phase with
    | .rolling (undo :: _) => journaled || (s.undone env verdict now outcome undo).2
    | .recovering (undo :: _) => (s.undone env verdict now outcome undo).2
    | _ => true
  | .stop => journaled || !s.phase.unsettled
  | _ => true

/-! ### Plans -/

section Plans

variable {env : ServiceExternals} {records : MemoryRecords} {scope : MemoryRecordScope}

/-- A renamed id says which id it has been made from, and with which suffix. -/
theorem renamedId_inj {id id' : String} {m n : ℕ} (h : renamedId id m = renamedId id' n) :
  id = id' ∧ m = n
  := by
  have hdash {k : ℕ} : ∀ c ∈ (Nat.toDigits 10 k).reverse, (c != '-') = true := by
    intro c hc
    have hdigit := Nat.isDigit_of_mem_toDigits (by decide) (by decide) (mem_reverse.mp hc)
    rw [bne_iff_ne]
    rintro rfl
    cases hdigit
  have hread {id : String} {k : ℕ} : (renamedId id k).toList.reverse =
      (Nat.toDigits 10 k).reverse ++ '-' :: ("-import".toList.reverse ++ id.toList.reverse) := by
    simp [renamedId]
  have hlist := congrArg (fun s => s.toList.reverse) h
  rw [hread, hread] at hlist
  have hdig := congrArg (takeWhile (· != '-')) hlist
  rw [takeWhile_append_of_pos hdash, takeWhile_append_of_pos hdash] at hdig
  simp only [takeWhile_cons, bne_self_eq_false, Bool.false_eq_true, if_false, append_nil] at hdig
  constructor
  · rw [hdig] at hlist
    apply String.toList_injective
    simpa using hlist
  · rw [← @Nat.ofDigitChars_ten_toDigits m, reverse_injective hdig,
      Nat.ofDigitChars_ten_toDigits]

/-- The id is none of those that are taken, and the scope sees no record with it. -/
def FreeId (env : ServiceExternals) (records : MemoryRecords) (scope : MemoryRecordScope)
    (taken : List String) (id : String) : Prop :=
  id ∉ taken ∧ visibleTo env records scope id = none

/-- The suffix is the first one with which the id is free. -/
def FirstFree (env : ServiceExternals) (records : MemoryRecords) (scope : MemoryRecordScope)
    (taken : List String) (id : String) (k : ℕ) : Prop :=
  FreeId env records scope taken (renamedId id (k + 1)) ∧
    ∀ j < k, ¬ FreeId env records scope taken (renamedId id (j + 1))

theorem FirstFree.unique {taken : List String} {id : String} {j k : ℕ}
    (hj : FirstFree env records scope taken id j) (hk : FirstFree env records scope taken id k) :
  j = k
  := by
  rcases Nat.lt_trichotomy j k with hlt | heq | hlt
  · exact absurd hj.1 (hk.2 j hlt)
  · apply heq
  · exact absurd hk.1 (hj.2 k hlt)

/-- Among the suffixes that are tried there is one that is free: the search for one ends, and it
ends with the first. -/
theorem freeId_spec (reserved : List String) (id : String) :
  ∃ k, FirstFree env records scope reserved id k ∧
    freeId env records scope reserved id = renamedId id (k + 1)
  := by
  have hfree {candidate : String} :
      (!reserved.contains candidate && (visibleTo env records scope candidate).isNone) ↔
        FreeId env records scope reserved candidate := by
    simp [FreeId]
  let tried := (List.range (reserved.length + records.records.length + 1)).map fun k =>
    renamedId id (k + 1)
  have hexists : ∃ candidate ∈ tried, FreeId env records scope reserved candidate := by
    by_contra hnone
    have hsubset : tried ⊆ reserved ++ records.records.map MemoryRecord.id := by
      intro candidate hcandidate
      by_contra hmem
      apply hnone
      use candidate, hcandidate
      rw [mem_append, not_or] at hmem
      have hget : records.get candidate = none := by
        rw [Option.eq_none_iff_forall_not_mem]
        intro record hrec
        obtain ⟨hin, hid⟩ := get_eq_some.mp hrec
        apply hmem.2
        rw [← hid]
        apply mem_map_of_mem hin
      simp [FreeId, visibleTo, hget, hmem.1]
    have hnodup : tried.Nodup := by
      apply Nodup.map _ nodup_range
      intro m n h
      have hsucc := (renamedId_inj h).2
      omega
    have hlen := (hnodup.subperm hsubset).length_le
    simp [tried] at hlen
  obtain ⟨candidate, hmem, hok⟩ := hexists
  obtain ⟨found, hfound⟩ : ∃ found, tried.find? (fun candidate =>
      !reserved.contains candidate && (visibleTo env records scope candidate).isNone) =
      some found := by
    apply Option.isSome_iff_exists.mp
    rw [List.find?_isSome]
    use candidate, hmem
    apply hfree.mpr hok
  have hfreeId : freeId env records scope reserved id = found := by
    unfold freeId
    rw [hfound]
    rfl
  obtain ⟨hgood, k, hk, rfl, hfirst⟩ := List.find?_eq_some_iff_getElem.mp hfound
  have htried {j : ℕ} (hj : j < tried.length) : tried[j] = renamedId id (j + 1) := by
    simp [tried]
  rw [htried] at hgood hfreeId
  refine ⟨k, ⟨hfree.mp hgood, ?_⟩, hfreeId⟩
  intro j hj hjfree
  have hnot := hfirst j hj
  rw [htried, hfree.mpr hjfree] at hnot
  cases hnot

/-- The id of a renamed record is free. -/
theorem free_freeId (reserved : List String) (id : String) :
  FreeId env records scope reserved (freeId env records scope reserved id)
  := by
  obtain ⟨k, hfirst, hid⟩ := freeId_spec reserved id
  rw [hid]
  apply hfirst.1

/-- A step of a plan creates a record where none is present, or overwrites the one that is. -/
def PlannedImport.Plausible (env : ServiceExternals) (records : MemoryRecords)
    (scope : MemoryRecordScope) (operation : PlannedImport) : Prop :=
  (operation.action = .create ∧ operation.before = none ∧
      presentTo env records scope operation.id = none) ∨
    operation.action = .overwrite ∧ ∃ before, operation.before = some before ∧
      presentTo env records scope operation.id = some before

/-- What is planned for one record is to skip it, or is plausible. -/
theorem planOne_sound (strategy : ImportStrategy) (reserved : List String) (source : MemoryRecord) :
  (planOne env records scope strategy reserved source).1.action = .skip ∨
    (planOne env records scope strategy reserved source).1.Plausible env records scope
  := by
  unfold planOne
  split
  · rename_i hnone
    right
    left
    use rfl, rfl, hnone
  rename_i existing hex
  cases strategy with
  | skip =>
    left
    rfl
  | overwrite =>
    right
    right
    use rfl, existing, rfl, hex
  | rename =>
  right
  left
  use rfl, rfl
  dsimp only
  rw [presentTo, (free_freeId reserved source.id).2]
  rfl

theorem planImport_sound (strategy : ImportStrategy) (reserved : List String)
    (sources : List MemoryRecord) :
  ∀ operation ∈ planImport env records scope strategy reserved sources,
    operation.Plausible env records scope
  := by
  induction sources generalizing reserved with
  | nil =>
    intro operation h
    cases h
  | cons source sources ih =>
  intro operation h
  unfold planImport at h
  dsimp only at h
  split at h
  · apply ih _ operation h
  rename_i hskip
  rcases mem_cons.mp h with rfl | h
  · apply (planOne_sound strategy reserved source).resolve_left hskip
  · apply ih _ operation h

/-- Without renaming, a planned step has the id of its source. -/
theorem planOne_id {strategy : ImportStrategy} (hstrat : strategy ≠ .rename)
    (reserved : List String) (source : MemoryRecord) :
  (planOne env records scope strategy reserved source).1.id = source.id
  := by
  unfold planOne
  split
  · rfl
  · cases strategy with
    | skip | overwrite => rfl
    | rename => exact absurd rfl hstrat

/-- Without renaming, every step of the plan has the id of its source. -/
theorem id_mem_of_planImport {strategy : ImportStrategy} (hstrat : strategy ≠ .rename)
    (reserved : List String) (sources : List MemoryRecord) :
  ∀ operation ∈ planImport env records scope strategy reserved sources,
    operation.id ∈ sources.map MemoryRecord.id
  := by
  induction sources generalizing reserved with
  | nil =>
    intro operation h
    cases h
  | cons source sources ih =>
  intro operation h
  unfold planImport at h
  dsimp only at h
  rw [map_cons, mem_cons]
  split at h
  · right
    apply ih _ operation h
  rcases mem_cons.mp h with rfl | h
  · left
    apply planOne_id hstrat
  · right
    apply ih _ operation h

/-- With renaming, every step of the plan creates. -/
theorem create_of_planImport (reserved : List String) (sources : List MemoryRecord) :
  ∀ operation ∈ planImport env records scope .rename reserved sources, operation.action = .create
  := by
  induction sources generalizing reserved with
  | nil =>
    intro operation h
    cases h
  | cons source sources ih =>
  have hone : (planOne env records scope .rename reserved source).1.action = .create := by
    unfold planOne
    split
    · rfl
    · rfl
  intro operation h
  unfold planImport at h
  dsimp only at h
  split at h
  · apply ih _ operation h
  · rcases mem_cons.mp h with rfl | h
    · apply hone
    · apply ih _ operation h

/-- Two steps of a plan have one id only if both create. -/
theorem planImport_distinct (strategy : ImportStrategy) (reserved : List String)
    {sources : List MemoryRecord} (hnodup : (sources.map MemoryRecord.id).Nodup) :
  (planImport env records scope strategy reserved sources).Pairwise fun p q =>
    p.id = q.id → p.action = .create ∧ q.action = .create
  := by
  by_cases hrename : strategy = .rename
  · subst hrename
    apply pairwise_of_forall_mem_list
    intro p hp q hq _
    use create_of_planImport reserved sources p hp, create_of_planImport reserved sources q hq
  induction sources generalizing reserved with
  | nil => apply List.Pairwise.nil
  | cons source sources ih =>
  rw [map_cons, nodup_cons] at hnodup
  unfold planImport
  dsimp only
  split
  · apply ih _ hnodup.2
  apply List.Pairwise.cons _ (ih _ hnodup.2)
  intro q hq hid
  have hone : (planOne env records scope strategy reserved source).1.id = source.id :=
    planOne_id hrename reserved source
  apply absurd _ hnodup.1
  rw [← hone, hid]
  apply id_mem_of_planImport hrename _ sources q hq

end Plans

/-! ### Calls of the memory service -/

section Calls

variable {env : ServiceExternals} {records other : MemoryRecords}
  {verdict : Except MemoryError Unit} {now : ℤ} {mutation : MemoryMutation} {outcome : Outcome}
  {id : String}

/-- A call leaves the records alone that it is not about. -/
theorem attempt_get_of_ne (htgt : mutation.target = some id) {k : String} (hne : k ≠ id) :
  (attempt env records verdict now mutation outcome).1.get k = records.get k
  := by
  unfold attempt
  cases heval : evaluate env records verdict now mutation with
  | error e => rfl
  | ok change =>
  have happly : (change.apply records).get k = records.get k := by
    rcases target_of_evaluate heval htgt with rfl | ⟨record, rfl, hid⟩
    · rfl
    · rw [Change.apply, get_set, hid, if_neg hne]
  cases outcome with
  | saved => apply happly
  | failed => rfl
  | lost => apply happly

/-- A call does the same to two records that are the same. -/
theorem attempt_get_congr (htgt : mutation.target = some id)
    (hget : records.get id = other.get id) :
  (attempt env records verdict now mutation outcome).1.get id =
    (attempt env other verdict now mutation outcome).1.get id
  := by
  have hsame : evaluate env records verdict now mutation =
      evaluate env other verdict now mutation := evaluate_congr htgt hget
  unfold attempt
  rw [← hsame]
  cases heval : evaluate env records verdict now mutation with
  | error e => apply hget
  | ok change =>
  have happly : (change.apply records).get id = (change.apply other).get id := by
    rcases target_of_evaluate heval htgt with rfl | ⟨record, rfl, hid⟩
    · apply hget
    · rw [Change.apply, Change.apply, get_set, get_set, hid,
        if_pos rfl, if_pos rfl]
  cases outcome with
  | saved => apply happly
  | failed => apply hget
  | lost => apply happly

/-- A call that returns has done what it decided. -/
theorem attempt_eq_true (h : (attempt env records verdict now mutation outcome).2) :
  ∃ change, evaluate env records verdict now mutation = .ok change ∧
    (attempt env records verdict now mutation outcome).1 = change.apply records
  := by
  unfold attempt at h ⊢
  cases heval : evaluate env records verdict now mutation with
  | error e =>
    rw [heval] at h
    cases h
  | ok change =>
  rw [heval] at h
  cases outcome with
  | saved => use change, rfl
  | failed | lost => cases h

/-- A call that throws has done nothing, or what it decided. -/
theorem attempt_cases :
  (attempt env records verdict now mutation outcome).1 = records ∨
    ∃ change, evaluate env records verdict now mutation = .ok change ∧
      (attempt env records verdict now mutation outcome).1 = change.apply records
  := by
  unfold attempt
  cases evaluate env records verdict now mutation with
  | error e =>
    left
    rfl
  | ok change =>
  cases outcome with
  | saved =>
    right
    use change, rfl
  | failed =>
    left
    rfl
  | lost =>
    right
    use change, rfl

/-- A call that throws without having done anything leaves the records as they are. -/
theorem attempt_eq_false (hout : outcome ≠ .lost)
    (h : (attempt env records verdict now mutation outcome).2 = false) :
  (attempt env records verdict now mutation outcome).1 = records
  := by
  unfold attempt at h ⊢
  cases heval : evaluate env records verdict now mutation with
  | error e => rfl
  | ok change =>
  rw [heval] at h
  cases outcome with
  | saved => cases h
  | failed => rfl
  | lost => exact absurd rfl hout

/-- What is present is the record with the id, which the scope may see and is not a tombstone. -/
theorem presentTo_eq_some {scope : MemoryRecordScope} {record : MemoryRecord} :
  presentTo env records scope id = some record ↔
    records.get id = some record ∧ env.canAccess scope record.scope ∧ record.isDeleted = false
  := by
  rw [presentTo, visibleTo, Option.filter_eq_some_iff, Option.filter_eq_some_iff]
  simp only [Bool.not_eq_true']
  tauto

end Calls

/-! ### Undoing -/

section Undoing

variable {env : ServiceExternals} {scope : MemoryRecordScope}

/-- What an update does not change of a record. -/
def MemoryRecord.frame (record : MemoryRecord) : MemoryRecord :=
  { record with
    content := ""
    provenance := { source := .user, actorId := none, sourceId := none, importedFrom := none }
    attachments := []
    tags := []
    pinned := false
    updatedAt := "" }

/-- The journal's entry for a record undoes what has been done to it: where nothing was present, the
record is as it was, or there was none or a tombstone and now there is one that the scope may see;
otherwise the record is the one of the entry but for what an update changes. -/
def Undoable (env : ServiceExternals) (scope : MemoryRecordScope) (before original current :
    Option MemoryRecord) : Prop :=
  match before with
  | none =>
    (current = original ∧ ∀ o ∈ original, env.canAccess scope o.scope → o.isDeleted) ∨
      (∀ o ∈ original, o.isDeleted) ∧ ∃ r, current = some r ∧ env.canAccess scope r.scope
  | some before =>
    original = some before ∧ env.canAccess scope before.scope ∧ before.isDeleted = false ∧
      normalizeTags before.tags = .ok before.tags ∧
      ∃ r, current = some r ∧ r.frame = before.frame

theorem seen_eq_none {record : Option MemoryRecord} (h : ∀ r ∈ record, r.isDeleted) :
  seen record = none
  := by
  cases record with
  | none => rfl
  | some r => simp [seen, h r rfl]

theorem seen_some {r : MemoryRecord} (h : r.isDeleted = false) :
  seen (some r) = some r.versionless
  := by
  simp [seen, h]

/-- Records with one frame are tombstones together, and in one scope. -/
theorem of_frame_eq {q r : MemoryRecord} (h : r.frame = q.frame) :
  r.isDeleted = q.isDeleted ∧ r.scope = q.scope
  := by
  have hdel : r.frame.deletedAt = q.frame.deletedAt := congrArg MemoryRecord.deletedAt h
  have hscope : r.frame.scope = q.frame.scope := congrArg MemoryRecord.scope h
  constructor
  · unfold MemoryRecord.isDeleted
    have hsame : r.deletedAt = q.deletedAt := hdel
    rw [hsame]
  · apply hscope

/-- What an update puts back is the record it is from, but for its version. -/
theorem versionless_restored {q r : MemoryRecord} (h : r.frame = q.frame) :
  (patched r (restoring q) q.tags q.attachments).versionless = q.versionless
  := by
  have hres : (patched r (restoring q) q.tags q.attachments).versionless =
      { r.frame with
        content := q.content
        provenance := q.provenance
        attachments := q.attachments
        tags := q.tags
        pinned := q.pinned } := rfl
  rw [hres, h]
  rfl

/-- What undoing does to a record that was created. -/
theorem undoable_delete {records : MemoryRecords} {verdict : Except MemoryError Unit} {now : ℤ}
    {id : String} {change : Change} {original : Option MemoryRecord} {current : MemoryRecord}
    (hcur : presentTo env records scope id = some current)
    (h : Undoable env scope none original (records.get id))
    (heval : evaluate env records verdict now (.delete scope id none) = .ok change) :
  Undoable env scope none original ((change.apply records).get id) ∧
    seen ((change.apply records).get id) = seen original
  := by
  obtain ⟨hget, hacc, hpres⟩ := presentTo_eq_some.mp hcur
  rcases h with ⟨hsame, hnone⟩ | ⟨hnone, -⟩
  · have hdel := hnone current (hsame.symm.trans hget) hacc
    rw [hpres] at hdel
    cases hdel
  obtain ⟨found, hfound, ⟨hdel, -⟩ | ⟨-, time, htime, rfl⟩⟩ := evaluateDelete_eq_ok heval
  · obtain rfl := Option.some.inj (hget.symm.trans hfound)
    rw [hpres] at hdel
    cases hdel
  obtain rfl := Option.some.inj (hget.symm.trans hfound)
  have hid : current.id = id := (get_eq_some.mp hget).2
  have htext : time ≠ "" := ne_empty_of_earlier (earlier_nextTimestamp htime)
  generalize hrec : ({ current with
    pinned := false
    updatedAt := time
    deletedAt := some time } : MemoryRecord) = record
  have hrecordId : record.id = id := by rw [← hrec, ← hid]
  have hscope : record.scope = current.scope := by rw [← hrec]
  have hdel : record.isDeleted := by simp [← hrec, MemoryRecord.isDeleted, htext]
  rw [Change.apply, get_set_self hrecordId]
  constructor
  · right
    use hnone, record, rfl
    rw [hscope]
    apply hacc
  rw [seen_eq_none hnone]
  apply seen_eq_none
  intro r hr
  cases hr
  apply hdel

/-- What undoing does to a record that was overwritten. -/
theorem undoable_update {records : MemoryRecords} {verdict : Except MemoryError Unit} {now : ℤ}
    {id : String} {change : Change} {before : MemoryRecord} {original : Option MemoryRecord}
    (h : Undoable env scope (some before) original (records.get id))
    (heval : evaluate env records verdict now (.update scope id (restoring before) none) =
      .ok change) :
  Undoable env scope (some before) original ((change.apply records).get id) ∧
    seen ((change.apply records).get id) = seen original
  := by
  obtain ⟨horig, hacc, hpres, htags, r, hr, hframe⟩ := h
  obtain ⟨current, tags, attachments, hget, -, -, hnormal, hvalid, hchg⟩ :=
    evaluateUpdate_eq_ok heval
  obtain rfl := Option.some.inj (hr.symm.trans hget)
  obtain rfl : before.tags = tags := Except.ok.inj (htags.symm.trans hnormal)
  obtain rfl : attachments = before.attachments := patchedAttachments_eq_ok hvalid
  have hid : r.id = id := (get_eq_some.mp hget).2
  have hres := versionless_restored hframe
  obtain ⟨hdel, -⟩ := of_frame_eq hframe
  rw [horig, seen_some hpres]
  rcases hchg with ⟨hkeep, rfl⟩ | ⟨time, -, rfl⟩
  · rw [hkeep] at hres
    rw [Change.apply, hget]
    constructor
    · use rfl, hacc, hpres, htags, r, rfl
    · rw [seen_some (hdel.trans hpres), hres]
  generalize hrec : ({ patched r (restoring before) before.tags before.attachments with
    updatedAt := time } : MemoryRecord) = record
  have hrecordId : record.id = id := by rw [← hrec]; exact hid
  have hrecordFrame : record.frame = before.frame := by rw [← hrec]; exact hframe
  have hversionless : record.versionless = before.versionless := by
    rw [← hrec]
    exact hres
  rw [Change.apply, get_set_self hrecordId]
  constructor
  · use rfl, hacc, hpres, htags, record, rfl
  · rw [seen_some ((of_frame_eq hrecordFrame).1.trans hpres), hversionless]

end Undoing

end Storage
