import VolundCode.Storage.MemoryTransfer

/-!
# Imports are atomic in orderly runs

An import goes through phases, and in each of them the records of the plan are imported, as they
were, or such that the journal undoes what has been done to them (`Underway`). Every orderly step
keeps this (`Underway.step`). If the user keeps away from the planned ids, calls that throw have done
nothing, what there was before is admitted again and a process that stops has a journal, then all
records have been imported when the import is over, or none (`atomic_of_orderly`).
-/

namespace Storage

open Run List MemoryRecords PlannedImport

/-! ### One record -/

section Steps

variable {env : ServiceExternals} {scope : MemoryRecordScope} {records : MemoryRecords}
  {verdict : Except MemoryError Unit} {now : ℤ} {actorId time : String}
  {operation : PlannedImport} {original : Option MemoryRecord}

/-- A step of a plan creates without a record before it, or overwrites one. -/
def PlannedImport.Actionable (operation : PlannedImport) : Prop :=
  (operation.action = .create ∧ operation.before = none) ∨
    operation.action = .overwrite ∧ ∃ before, operation.before = some before

/-- What a step creates can be undone, and is what was to be imported. -/
theorem undoable_create (hself : ∀ scope, env.canAccess scope scope)
    {change : Change} {input : NewMemoryRecord} (hinput : input =
      { id := operation.id
        scope := scope
        content := operation.source.content
        provenance := importedProvenance operation.source.provenance actorId
        tags := some operation.source.tags
        pinned := some operation.source.pinned
        attachments := some (importedAttachments operation.source.attachments time) })
    (h : Undoable env scope none original (records.get operation.id))
    (heval : evaluateCreate env records verdict now input = .ok change) :
  Undoable env scope none original ((change.apply records).get operation.id) ∧
    (∃ record, (change.apply records).get operation.id = some record ∧
      operation.Imported env scope actorId record) ∧
    (change = .keep ∨ ∀ r ∈ records.get operation.id, r.isDeleted)
  := by
  subst hinput
  rcases evaluateCreate_eq_ok heval with
    ⟨rfl, existing, tags, hget, htags, hrepeats⟩ | ⟨hdel, hmade⟩
  · rw [Change.apply]
    simp only [NewMemoryRecord.repeats, Option.getD_some, Bool.and_eq_true, Bool.not_eq_true',
      decide_eq_true_eq] at hrepeats htags
    obtain ⟨⟨⟨⟨⟨⟨hpres, hacc⟩, hcont⟩, hpinned⟩, rfl⟩, hatts⟩, hprovenance⟩ := hrepeats
    use h
    constructor
    · use existing, hget
      exact ⟨hpres, hacc, hcont, htags, hpinned, hprovenance, time, hatts⟩
    · left
      rfl
  obtain ⟨tags, htags, rfl⟩ := createRecord_eq_ok hmade
  generalize hrec : (
    { id := operation.id
      scope := scope
      content := operation.source.content
      provenance := importedProvenance operation.source.provenance actorId
      attachments :=
        (some (importedAttachments operation.source.attachments time)).getD []
      tags := tags
      pinned := (some operation.source.pinned).getD false
      createdAt := Ecma.toISOString now
      updatedAt := Ecma.toISOString now
      deletedAt := none } : MemoryRecord) = record
  have hid : record.id = operation.id := by rw [← hrec]
  rw [Change.apply, get_set_self hid]
  have hacc : env.canAccess scope record.scope := by
    rw [← hrec]
    apply hself
  refine ⟨Or.inr ⟨?_, record, rfl, hacc⟩, ⟨record, rfl, ?_⟩, Or.inr hdel⟩
  · rcases h with ⟨hsame, -⟩ | ⟨hnone, -⟩
    · rw [← hsame]
      apply hdel
    · apply hnone
  · subst hrec
    exact ⟨rfl, hacc, rfl, htags, rfl, rfl, time, rfl⟩

/-- What a step overwrites can be undone, and is what was to be imported. -/
theorem undoable_overwrite {change : Change} {before : MemoryRecord} {patch : MemoryPatch}
    (hpatch : patch =
      { content := some operation.source.content
        tags := some operation.source.tags
        pinned := some operation.source.pinned
        provenance := some (importedProvenance operation.source.provenance actorId)
        attachments := some (importedAttachments operation.source.attachments time) })
    (h : Undoable env scope (some before) original (records.get operation.id))
    (heval : evaluateUpdate env records verdict now scope operation.id patch none = .ok change) :
  Undoable env scope (some before) original ((change.apply records).get operation.id) ∧
    ∃ record, (change.apply records).get operation.id = some record ∧
      operation.Imported env scope actorId record
  := by
  subst hpatch
  obtain ⟨horig, hacc, hpres, hnormal, r, hr, hframe⟩ := h
  obtain ⟨current, tags, attachments, hget, -, -, htags, hvalid, hchg⟩ :=
    evaluateUpdate_eq_ok heval
  obtain rfl := Option.some.inj (hr.symm.trans hget)
  obtain rfl : attachments = importedAttachments operation.source.attachments time :=
    patchedAttachments_eq_ok hvalid
  obtain ⟨hdel, hscope⟩ := of_frame_eq hframe
  have hid : r.id = operation.id := (get_eq_some.mp hget).2
  rw [← hscope] at hacc
  rcases hchg with ⟨hkeep, rfl⟩ | ⟨version, -, rfl⟩
  · rw [Change.apply, hget]
    have himp : operation.Imported env scope actorId r := by
      rw [← hkeep]
      exact ⟨hdel.trans hpres, hacc, rfl, htags, rfl, rfl, time, rfl⟩
    constructor
    · use horig, hscope ▸ hacc, hpres, hnormal, r, rfl
    · use r, rfl
  generalize hrec : ({ patched r _ tags _ with updatedAt := version } : MemoryRecord) = record
  have hrecordId : record.id = operation.id := by rw [← hrec]; exact hid
  have hrecordFrame : record.frame = before.frame := by rw [← hrec]; exact hframe
  have himp : operation.Imported env scope actorId record := by
    rw [← hrec]
    exact ⟨hdel.trans hpres, hacc, rfl, htags, rfl, rfl, time, rfl⟩
  rw [Change.apply, get_set_self hrecordId]
  constructor
  · use horig, hscope ▸ hacc, hpres, hnormal, record, rfl
  · use record, rfl

/-- What a step of the plan does to its record can be undone, and is what was to be imported. If the
step changes a record that is there, that is a tombstone or one to be overwritten. -/
theorem undoable_apply (hself : ∀ scope, env.canAccess scope scope) {change : Change}
    (hactionable : operation.Actionable)
    (h : Undoable env scope operation.before original (records.get operation.id))
    (heval : evaluate env records verdict now (operation.mutation scope actorId time) =
      .ok change) :
  Undoable env scope operation.before original ((change.apply records).get operation.id) ∧
    (∃ record, (change.apply records).get operation.id = some record ∧
      operation.Imported env scope actorId record) ∧
    (operation.action = .create → change = .keep ∨ ∀ r ∈ records.get operation.id, r.isDeleted)
  := by
  rcases hactionable with ⟨hmade, hpre⟩ | ⟨hover, before, hpre⟩
  · rw [PlannedImport.mutation, if_neg (by rw [hmade]; decide)] at heval
    rw [hpre] at h ⊢
    obtain ⟨hundo, himp, hchg⟩ := undoable_create hself rfl h heval
    use hundo, himp, fun _ => hchg
  rw [PlannedImport.mutation, if_pos hover] at heval
  rw [hpre] at h ⊢
  obtain ⟨hundo, himp⟩ := undoable_overwrite rfl h heval
  use hundo, himp
  intro hmade
  rw [hmade] at hover
  cases hover

/-- A step of the plan is about its record. -/
theorem target_mutation :
  (operation.mutation scope actorId time).target = some operation.id
  := by
  unfold PlannedImport.mutation
  dsimp only
  split
  · rfl
  · rfl

/-- If a record that is to be deleted is not present, then nothing is to be seen of it, and so it is
without the import. -/
theorem seen_of_absent {id : String} (h : Undoable env scope none original (records.get id))
    (habsent : presentTo env records scope id = none) :
  seen (records.get id) = seen original
  := by
  rcases h with ⟨hsame, -⟩ | ⟨hnone, r, hr, hacc⟩
  · rw [hsame]
  rw [seen_eq_none hnone]
  apply seen_eq_none
  intro q hq
  obtain rfl := Option.some.inj (hr.symm.trans hq)
  by_contra hpres
  rw [Bool.not_eq_true] at hpres
  have hsome : presentTo env records scope id = some r := presentTo_eq_some.mpr ⟨hr, hacc, hpres⟩
  rw [habsent] at hsome
  cases hsome

/-- What holds of the record that a call is about, whether the call is carried out or not, holds
after it; what holds if it is carried out holds if it does not throw. -/
theorem attempt_spec {mutation : MemoryMutation} {outcome : Outcome} {id : String}
    {P Q : Option MemoryRecord → Prop} (htgt : mutation.target = some id)
    (h : P (records.get id))
    (heval : ∀ change, evaluate env records verdict now mutation = .ok change →
      P ((change.apply records).get id) ∧ Q ((change.apply records).get id)) :
  (∀ k ≠ id, (attempt env records verdict now mutation outcome).1.get k = records.get k) ∧
    P ((attempt env records verdict now mutation outcome).1.get id) ∧
    ((attempt env records verdict now mutation outcome).2 →
      Q ((attempt env records verdict now mutation outcome).1.get id))
  := by
  refine ⟨fun k hk => attempt_get_of_ne htgt hk, ?_, ?_⟩
  · have hcases : (attempt env records verdict now mutation outcome).1 = records ∨
        ∃ change, evaluate env records verdict now mutation = .ok change ∧
          (attempt env records verdict now mutation outcome).1 = change.apply records :=
      attempt_cases
    rcases hcases with hsame | ⟨change, hchg, hsame⟩
    · rw [hsame]
      apply h
    · rw [hsame]
      apply (heval change hchg).1
  intro htrue
  obtain ⟨change, hchg, hsame⟩ := attempt_eq_true htrue
  rw [hsame]
  apply (heval change hchg).2

/-- What is undone leaves other records alone, can be undone again, and is as it would be without
the import if nothing throws. -/
theorem undone_spec (verdict : Except MemoryError Unit) (now : ℤ) (outcome : Outcome)
    {s : MemoryTransfer} {undo : Undo}
    (h : Undoable env s.scope undo.before original (s.stored.get undo.id)) :
  (∀ id ≠ undo.id, (s.undone env verdict now outcome undo).1.get id = s.stored.get id) ∧
    Undoable env s.scope undo.before original
      ((s.undone env verdict now outcome undo).1.get undo.id) ∧
    ((s.undone env verdict now outcome undo).2 →
      seen ((s.undone env verdict now outcome undo).1.get undo.id) = seen original)
  := by
  unfold MemoryTransfer.undone Undo.mutation
  obtain ⟨id, before⟩ := undo
  cases hpres : presentTo env s.stored s.scope id with
  | none =>
    use fun _ _ => rfl, h
    intro _
    cases before with
    | none => apply seen_of_absent h hpres
    | some before =>
    obtain ⟨_, hacc, hdel, _, r, hr, hframe⟩ := h
    obtain ⟨hsame, hscope⟩ := of_frame_eq hframe
    have hsome : presentTo env s.stored s.scope id = some r := by
      apply presentTo_eq_some.mpr
      exact ⟨hr, hscope ▸ hacc, hsame.trans hdel⟩
    rw [hpres] at hsome
    cases hsome
  | some current =>
  cases before with
  | none =>
    dsimp only at h ⊢
    apply attempt_spec (Q := fun record => seen record = seen original) rfl h
    intro change hchg
    apply undoable_delete hpres h hchg
  | some before =>
  dsimp only at h ⊢
  apply attempt_spec (Q := fun record => seen record = seen original) rfl h
  intro change hchg
  apply undoable_update h hchg

end Steps

/-! ### Phases -/

section Phases

variable (env : ServiceExternals) (journaled : Bool) (actorId : String)

/-- The record of a step is as it was. -/
def MemoryTransfer.Untouched (s : MemoryTransfer) (operation : PlannedImport) : Prop :=
  s.stored.get operation.id = s.aside.get operation.id

/-- What is to be seen of the record of a step is as it would be without the import. -/
def MemoryTransfer.Unseen (s : MemoryTransfer) (operation : PlannedImport) : Prop :=
  seen (s.stored.get operation.id) = seen (s.aside.get operation.id)

/-- The record of a step is there as it was to be imported. -/
def MemoryTransfer.Present (s : MemoryTransfer) (operation : PlannedImport) : Prop :=
  ∃ record, s.stored.get operation.id = some record ∧ operation.Imported env s.scope actorId record

/-- The journal of the plan. -/
def MemoryTransfer.fullJournal (s : MemoryTransfer) : List Undo :=
  s.plan.map PlannedImport.undo

/-- The records whose steps are still to be undone are in the list; the others are as they would be
without the import. -/
def MemoryTransfer.UpTo (s : MemoryTransfer) (rest : List Undo) : Prop :=
  rest ⊆ s.fullJournal ∧ ∀ operation ∈ s.plan, operation.undo ∈ rest ∨ s.Unseen operation

/-- What holds of the records of the plan, and of the journal, in a phase. -/
def MemoryTransfer.InPhase (s : MemoryTransfer) : TransferPhase → Prop
  | .idle => s.plan = [] ∧ s.stored = s.aside ∧ s.journal = none
  | .planned => s.journal = none ∧ ∀ operation ∈ s.plan, s.Untouched operation
  | .applying done rest =>
    s.journal = (if journaled then some s.fullJournal else none) ∧ done ++ rest = s.plan ∧
      (∀ operation ∈ done, s.Present env actorId operation) ∧
      ∀ operation ∈ rest, operation.id ∉ done.map PlannedImport.id → s.Untouched operation
  | .rolling rest =>
    s.journal = (if journaled then some s.fullJournal else none) ∧ s.UpTo rest
  | .stopped =>
    s.journal = some s.fullJournal ∨ s.journal = none ∧ ∀ operation ∈ s.plan, s.Unseen operation
  | .recovering rest => s.journal = some s.fullJournal ∧ s.UpTo rest
  | .finished => ∀ operation ∈ s.plan, s.Present env actorId operation
  | .failed | .recovered => ∀ operation ∈ s.plan, s.Unseen operation
  | .stuck => False

/-- Two steps of the plan have one id only if both create. -/
def Distinct (p q : PlannedImport) : Prop :=
  p.id = q.id → p.action = .create ∧ q.action = .create

/-- What holds while an import is under way. -/
structure Underway (s : MemoryTransfer) : Prop where
  others : ∀ id ∉ s.ids, s.stored.get id = s.aside.get id
  distinct : s.plan.Pairwise Distinct
  actionable : ∀ operation ∈ s.plan, operation.Actionable
  undoable : ∀ operation ∈ s.plan, Undoable env s.scope operation.before (s.aside.get operation.id)
      (s.stored.get operation.id)
  phase : s.InPhase env journaled actorId s.phase

end Phases

section Keeping

variable {env : ServiceExternals} {journaled : Bool} {actorId : String} {s t : MemoryTransfer}

variable {operation : PlannedImport}

theorem PlannedImport.id_mem (h : operation ∈ s.plan) :
  operation.id ∈ s.ids
  := mem_map_of_mem h

theorem MemoryTransfer.Untouched.unseen (h : s.Untouched operation) :
  s.Unseen operation
  := congrArg seen h

/-- Two steps of the plan with one id have the same entry in the journal. -/
theorem Underway.undo_eq (h : Underway env journaled actorId s) {p q : PlannedImport}
    (hp : p ∈ s.plan) (hq : q ∈ s.plan) (hid : p.id = q.id) :
  p.undo = q.undo
  := by
  have hsymm : Std.Symm Distinct := ⟨fun p q hpq hid => (hpq hid.symm).symm⟩
  have hpre : p.before = q.before := by
    by_cases hsame : p = q
    · rw [hsame]
    have hdist : Distinct p q := h.distinct.forall hp hq hsame
    obtain ⟨hcreateP, hcreateQ⟩ := hdist hid
    have hnone : ∀ r ∈ s.plan, r.action = .create → r.before = none := by
      intro r hr hmade
      rcases h.actionable r hr with ⟨-, hnone⟩ | ⟨hover, -⟩
      · apply hnone
      · rw [hmade] at hover
        cases hover
    rw [hnone p hp hcreateP, hnone q hq hcreateQ]
  simp only [PlannedImport.undo, hid, hpre]

/-- In a phase other than the first only the records of the plan matter. -/
theorem MemoryTransfer.InPhase.congr {phase : TransferPhase} (hphase : phase ≠ .idle)
    (h : s.InPhase env journaled actorId phase) (hplan : t.plan = s.plan)
    (hscope : t.scope = s.scope) (hjour : t.journal = s.journal)
    (hstor : ∀ operation ∈ s.plan, t.stored.get operation.id = s.stored.get operation.id)
    (haside : ∀ operation ∈ s.plan, t.aside.get operation.id = s.aside.get operation.id) :
  t.InPhase env journaled actorId phase
  := by
  have huntouched : ∀ operation ∈ s.plan, s.Untouched operation → t.Untouched operation := by
    intro operation hmem hsame
    exact (hstor operation hmem).trans (hsame.trans (haside operation hmem).symm)
  have hunseen : ∀ operation ∈ s.plan, s.Unseen operation → t.Unseen operation := by
    intro operation hmem hsame
    unfold MemoryTransfer.Unseen
    rw [hstor operation hmem, haside operation hmem]
    apply hsame
  have hpres : ∀ operation ∈ s.plan, s.Present env actorId operation →
      t.Present env actorId operation := by
    intro operation hmem hthere
    unfold MemoryTransfer.Present
    rw [hstor operation hmem, hscope]
    apply hthere
  have hfull : t.fullJournal = s.fullJournal := by rw [fullJournal, fullJournal, hplan]
  have hupTo : ∀ rest, s.UpTo rest → t.UpTo rest := by
    intro rest hrest
    unfold MemoryTransfer.UpTo
    rw [hfull, hplan]
    use hrest.1
    intro operation hmem
    apply (hrest.2 operation hmem).imp_right (hunseen operation hmem)
  cases phase with
  | idle => exact absurd rfl hphase
  | planned =>
    unfold MemoryTransfer.InPhase at h ⊢
    rw [hjour, hplan]
    use h.1
    intro operation hmem
    apply huntouched operation hmem (h.2 operation hmem)
  | applying done rest =>
    obtain ⟨hj, hsplit, hdone, hrest⟩ := h
    unfold MemoryTransfer.InPhase
    rw [hjour, hplan, hfull]
    use hj, hsplit
    constructor
    · intro operation hmem
      have hin : operation ∈ s.plan := by rw [← hsplit]; simp [hmem]
      apply hpres operation hin (hdone operation hmem)
    · intro operation hmem hnew
      have hin : operation ∈ s.plan := by rw [← hsplit]; simp [hmem]
      apply huntouched operation hin (hrest operation hmem hnew)
  | rolling rest =>
    unfold MemoryTransfer.InPhase at h ⊢
    rw [hjour, hfull]
    constructor
    · apply h.1
    · apply hupTo rest h.2
  | stopped =>
    unfold MemoryTransfer.InPhase at h ⊢
    rw [hjour, hfull, hplan]
    apply h.imp_right
    rintro ⟨hnone, hall⟩
    use hnone
    intro operation hmem
    apply hunseen operation hmem (hall operation hmem)
  | recovering rest =>
    unfold MemoryTransfer.InPhase at h ⊢
    rw [hjour, hfull]
    constructor
    · apply h.1
    · apply hupTo rest h.2
  | finished =>
    unfold MemoryTransfer.InPhase at h ⊢
    rw [hplan]
    intro operation hmem
    apply hpres operation hmem (h operation hmem)
  | failed | recovered =>
    unfold MemoryTransfer.InPhase at h ⊢
    rw [hplan]
    intro operation hmem
    apply hunseen operation hmem (h operation hmem)
  | stuck => exact h

/-- Going on to another phase needs only what holds in it. -/
theorem Underway.goTo (h : Underway env journaled actorId s) {journal : Option (List Undo)}
    {phase : TransferPhase}
    (hphase : MemoryTransfer.InPhase env journaled actorId { s with journal := journal } phase) :
  Underway env journaled actorId { s with journal := journal, phase := phase }
  := by
  use h.others, h.distinct, h.actionable, h.undoable
  cases phase with
  | _ => exact hphase

/-- What is applied, or not, is undone from the journal: everything else has not been touched. -/
theorem Underway.rollBack (h : Underway env journaled actorId s) {done rest : List PlannedImport}
    (hphase : s.InPhase env journaled actorId (.applying done rest)) :
  Underway env journaled actorId (s.rollBack done)
  := by
  obtain ⟨hjour, hsplit, -, hrest⟩ := hphase
  apply h.goTo
  use hjour
  have hin : ∀ operation ∈ done, operation ∈ s.plan := by
    intro operation hmem
    rw [← hsplit]
    simp [hmem]
  constructor
  · intro undo hundo
    simp only [mem_map, mem_reverse] at hundo
    obtain ⟨operation, hmem, rfl⟩ := hundo
    apply mem_map_of_mem (hin operation hmem)
  intro operation hmem
  by_cases hdone : operation.id ∈ done.map PlannedImport.id
  · left
    obtain ⟨p, hp, hid⟩ := mem_map.mp hdone
    rw [← h.undo_eq (hin p hp) hmem hid]
    apply mem_map_of_mem
    simp [hp]
  right
  rw [← hsplit, mem_append] at hmem
  rcases hmem with hmem | hmem
  · exact absurd (mem_map_of_mem hmem) hdone
  · apply MemoryTransfer.Untouched.unseen
    apply hrest operation hmem hdone

/-- If the record of a step changes into one that can be undone, and no other, then what can be
undone can still be. -/
theorem Underway.undoable_of (h : Underway env journaled actorId s)
    {stored : MemoryRecords} (hmem : operation ∈ s.plan)
    (hoth : ∀ id ≠ operation.id, stored.get id = s.stored.get id)
    (hundo : Undoable env s.scope operation.before (s.aside.get operation.id)
      (stored.get operation.id)) :
  ∀ p ∈ s.plan, Undoable env s.scope p.before (s.aside.get p.id) (stored.get p.id)
  := by
  intro p hp
  by_cases hid : p.id = operation.id
  · have hpre : p.before = operation.before := congrArg Undo.before (h.undo_eq hp hmem hid)
    rw [hid, hpre]
    apply hundo
  · rw [hoth p.id hid]
    apply h.undoable p hp

variable {verdict : Except MemoryError Unit} {now : ℤ}

/-- A step of the plan that has been applied. -/
theorem Underway.applied (hself : ∀ scope, env.canAccess scope scope)
    (h : Underway env journaled actorId s)
    {time : String} {change : Change} {done rest : List PlannedImport}
    (hphase : s.InPhase env journaled actorId (.applying done (operation :: rest)))
    (hchg : evaluate env s.stored verdict now (operation.mutation s.scope actorId time) =
      .ok change) :
  Underway env journaled actorId
    { s with
      stored := change.apply s.stored
      phase := .applying (done ++ [operation]) rest }
  := by
  obtain ⟨hjour, hsplit, hdone, hrest⟩ := hphase
  have hmem : operation ∈ s.plan := by
    rw [← hsplit]
    simp
  have hoth : ∀ id ≠ operation.id, (change.apply s.stored).get id = s.stored.get id := by
    intro id hne
    rcases target_of_evaluate hchg target_mutation with rfl | ⟨record, rfl, hid⟩
    · rfl
    · rw [Change.apply, get_set, hid, if_neg hne]
  obtain ⟨hundo, hpres, hmade⟩ :=
    undoable_apply hself (h.actionable operation hmem) (h.undoable operation hmem) hchg
  refine ⟨?_, h.distinct, h.actionable, h.undoable_of hmem hoth hundo, hjour, ?_, ?_, ?_⟩
  · intro id hid
    have hne : id ≠ operation.id := by
      rintro rfl
      apply hid (id_mem hmem)
    rw [hoth id hne]
    apply h.others id hid
  · rw [append_assoc]
    apply hsplit
  · intro p hp
    rcases mem_append.mp hp with hp | hp
    · obtain ⟨record, hget, himp⟩ := hdone p hp
      by_cases hid : p.id = operation.id
      · -- Both create: what is there stays, for it is what is to be created.
        have hpre : Distinct p operation := by
          have hpair := h.distinct
          rw [← hsplit] at hpair
          apply (pairwise_append.mp hpair).2.2 p hp operation
          apply mem_cons_self
        rcases hmade (hpre hid).2 with rfl | hdel
        · use record, hget
        rw [hid] at hget
        have hgone := hdel record hget
        rw [himp.present] at hgone
        cases hgone
      · use record, (hoth p.id hid).trans hget
    · obtain rfl := mem_singleton.mp hp
      apply hpres
  intro p hp hnew
  simp only [map_append, mem_append, not_or, map_cons, map_nil, mem_singleton] at hnew
  apply (hoth p.id hnew.2).trans
  apply hrest p (mem_cons_of_mem operation hp) hnew.1

/-- A step of the plan that is applied. -/
theorem Underway.apply (hself : ∀ scope, env.canAccess scope scope)
    (h : Underway env journaled actorId s) {time : ℤ}
    {outcome : Outcome} (hout : outcome ≠ .lost) {done rest : List PlannedImport}
    (hphase : s.InPhase env journaled actorId (.applying done (operation :: rest))) :
  Underway env journaled actorId (s.apply env actorId verdict now time outcome done operation rest)
  := by
  unfold MemoryTransfer.apply
  split
  · apply h.rollBack hphase
  rename_i time _
  dsimp only
  have htgt : (operation.mutation s.scope actorId time).target = some operation.id :=
    target_mutation
  split
  · rename_i htrue
    obtain ⟨change, hchg, hstor⟩ := attempt_eq_true htrue
    rw [hstor]
    apply h.applied hself hphase hchg
  · rename_i hfalse
    rw [attempt_eq_false hout (by simpa using hfalse)]
    apply h.rollBack hphase

/-- A step that is undone, with those that remain to be undone if nothing has thrown. -/
theorem Underway.undone (h : Underway env journaled actorId s)
    {outcome : Outcome} {undo : Undo} {rest : List Undo} (hupTo : s.UpTo (undo :: rest))
    {phase : TransferPhase}
    (hphase : ∀ t : MemoryTransfer, t.plan = s.plan → t.journal = s.journal →
      ((s.undone env verdict now outcome undo).2 → t.UpTo rest) →
      t.InPhase env journaled actorId phase) :
  Underway env journaled actorId
    { s with stored := (s.undone env verdict now outcome undo).1, phase := phase }
  := by
  obtain ⟨hplanned, hoth⟩ := hupTo
  obtain ⟨operation, hmem, rfl⟩ := mem_map.mp (hplanned mem_cons_self)
  have hpre : Undoable env s.scope operation.undo.before (s.aside.get operation.undo.id)
      (s.stored.get operation.undo.id) := h.undoable operation hmem
  obtain ⟨hkept, hundoable, hseen⟩ := undone_spec verdict now outcome hpre
  refine ⟨?_, h.distinct, h.actionable, h.undoable_of hmem hkept hundoable, ?_⟩
  · intro id hid
    have hne : id ≠ operation.id := by
      rintro rfl
      apply hid (id_mem hmem)
    apply (hkept id hne).trans
    apply h.others id hid
  apply hphase
  · rfl
  · rfl
  intro htrue
  constructor
  · intro other hother
    apply hplanned (mem_cons_of_mem _ hother)
  intro p hp
  by_cases hid : p.id = operation.id
  · right
    unfold MemoryTransfer.Unseen
    rw [hid]
    apply hseen htrue
  rcases hoth p hp with hundo | hunseen
  · left
    rcases mem_cons.mp hundo with hsame | hundo
    · exact absurd (congrArg Undo.id hsame) hid
    · apply hundo
  right
  unfold MemoryTransfer.Unseen
  rw [show (s.undone env verdict now outcome operation.undo).1.get p.id =
    s.stored.get p.id from hkept p.id hid]
  apply hunseen

/-- A call of the user about another record. -/
theorem Underway.user (h : Underway env journaled actorId s) {mutation : MemoryMutation}
    {id : String} (htgt : mutation.target = some id) (hid : id ∉ s.ids) :
  Underway env journaled actorId
    { s with
      stored := (attempt env s.stored verdict now mutation .saved).1
      aside := (attempt env s.aside verdict now mutation .saved).1 }
  := by
  have hstor : ∀ operation ∈ s.plan,
      (attempt env s.stored verdict now mutation .saved).1.get operation.id =
        s.stored.get operation.id := by
    intro operation hmem
    apply attempt_get_of_ne htgt
    rintro rfl
    apply hid (id_mem hmem)
  have haside : ∀ operation ∈ s.plan,
      (attempt env s.aside verdict now mutation .saved).1.get operation.id =
        s.aside.get operation.id := by
    intro operation hmem
    apply attempt_get_of_ne htgt
    rintro rfl
    apply hid (id_mem hmem)
  refine ⟨?_, h.distinct, h.actionable, ?_, ?_⟩
  · intro k hk
    dsimp only
    by_cases hsame : k = id
    · rw [hsame]
      apply attempt_get_congr htgt
      apply h.others id hid
    · rw [attempt_get_of_ne htgt hsame, attempt_get_of_ne htgt hsame]
      apply h.others k hk
  · intro operation hmem
    dsimp only
    rw [hstor operation hmem, haside operation hmem]
    apply h.undoable operation hmem
  by_cases hidle : s.phase = .idle
  · have hphase := h.phase
    rw [hidle] at hphase
    obtain ⟨hplan, hsame, hjour⟩ := hphase
    dsimp only
    rw [hidle]
    use hplan
    dsimp only
    rw [hsame]
    use rfl
  apply MemoryTransfer.InPhase.congr hidle h.phase
  · rfl
  · rfl
  · rfl
  · apply hstor
  · apply haside

/-- A call of the user before the import, about any records. -/
theorem Underway.before (h : Underway env journaled actorId s) (hidle : s.phase = .idle)
    {mutation : MemoryMutation} :
  Underway env journaled actorId
    { s with
      stored := (attempt env s.stored verdict now mutation .saved).1
      aside := (attempt env s.aside verdict now mutation .saved).1 }
  := by
  have hphase := h.phase
  rw [hidle] at hphase
  obtain ⟨hplan, hsame, hjour⟩ := hphase
  rw [hsame]
  refine ⟨fun _ _ => rfl, h.distinct, h.actionable, ?_, ?_⟩
  · intro operation hmem
    dsimp only at hmem
    rw [hplan] at hmem
    cases hmem
  · dsimp only
    rw [hidle]
    exact ⟨hplan, rfl, hjour⟩

/-- The plan of an import, if what it overwrites has the tags that the service would give it. -/
theorem Underway.plan (h : Underway env journaled actorId s) (hidle : s.phase = .idle)
    {strategy : ImportStrategy} {sources : List MemoryRecord}
    (hnodup : (sources.map MemoryRecord.id).Nodup)
    (hnormal : ∀ operation ∈ planImport env s.stored s.scope strategy [] sources,
      ∀ before ∈ operation.before, normalizeTags before.tags = .ok before.tags) :
  Underway env journaled actorId
    { s with plan := planImport env s.stored s.scope strategy [] sources, phase := .planned }
  := by
  have hphase := h.phase
  rw [hidle] at hphase
  obtain ⟨-, hsame, hjour⟩ := hphase
  have hsound : ∀ operation ∈ planImport env s.stored s.scope strategy [] sources,
      operation.Plausible env s.stored s.scope := planImport_sound strategy [] sources
  refine ⟨?_, planImport_distinct strategy [] hnodup, ?_, ?_, hjour, ?_⟩
  · intro id _
    dsimp only
    rw [hsame]
  · intro operation hmem
    rcases hsound operation hmem with ⟨hact, hpre, -⟩ | ⟨hact, before, hpre, -⟩
    · left
      exact ⟨hact, hpre⟩
    · right
      exact ⟨hact, before, hpre⟩
  · intro operation hmem
    dsimp only
    rw [hsame]
    rcases hsound operation hmem with ⟨-, hpre, habsent⟩ | ⟨-, before, hpre, hpres⟩
    · rw [hpre]
      left
      use rfl
      intro o ho hacc
      by_contra hdel
      rw [Bool.not_eq_true] at hdel
      have hsome : presentTo env s.stored s.scope operation.id = some o := by
        apply presentTo_eq_some.mpr
        rw [hsame]
        exact ⟨ho, hacc, hdel⟩
      rw [habsent] at hsome
      cases hsome
    obtain ⟨hget, hacc, hdel⟩ := presentTo_eq_some.mp hpres
    rw [hpre]
    rw [hsame] at hget
    exact ⟨hget, hacc, hdel, hnormal operation hmem before hpre, before, hget, rfl⟩
  intro operation _
  unfold MemoryTransfer.Untouched
  dsimp only
  rw [hsame]

/-- An orderly step keeps what holds while an import is under way. -/
theorem Underway.step (hself : ∀ scope, env.canAccess scope scope) {a : TransferAction}
    (h : Underway env journaled actorId s) (hord : orderly env journaled s a)
    (hstep : transferStep env journaled actorId s a = some t) :
  Underway env journaled actorId t
  := by
  have hphase := h.phase
  unfold transferStep at hstep
  cases a with
  | user mutation verdict now =>
    cases hstep
    unfold orderly at hord
    dsimp only at hord
    split at hord
    · rename_i id htgt
      apply h.user htgt
      simpa using hord
    · apply h.before
      simpa using hord
  | plan strategy sources =>
    dsimp only at hstep
    split at hstep
    · rename_i hidle
      split at hstep
      · rename_i hnodup
        cases hstep
        apply h.plan hidle hnodup
        intro operation hmem before hpre
        unfold orderly at hord
        have hnormal := all_eq_true.mp hord operation hmem
        rw [Option.mem_def.mp hpre] at hnormal
        simp only [Option.all_some, decide_eq_true_eq] at hnormal
        cases htags : normalizeTags before.tags with
        | error e =>
          rw [htags] at hnormal
          cases hnormal
        | ok tags =>
          rw [htags] at hnormal
          rw [Option.some.inj hnormal]
      · cases hstep
    · cases hstep
  | begin =>
    dsimp only at hstep
    split at hstep
    · rename_i hplanned
      cases hstep
      rw [hplanned] at hphase
      apply h.goTo
      refine ⟨rfl, rfl, ?_, ?_⟩
      · intro operation hmem
        cases hmem
      · intro operation hmem _
        apply hphase.2 operation hmem
    · cases hstep
  | apply verdict now time outcome =>
    dsimp only at hstep
    split at hstep
    · rename_i done operation rest happlying
      cases hstep
      rw [happlying] at hphase
      apply h.apply hself _ hphase
      simpa [orderly] using hord
    · cases hstep
  | throws =>
    dsimp only at hstep
    split at hstep
    · rename_i hplanned
      cases hstep
      rw [hplanned] at hphase
      apply h.goTo
      intro operation hmem
      apply MemoryTransfer.Untouched.unseen
      apply hphase.2 operation hmem
    · rename_i done rest happlying
      cases hstep
      rw [happlying] at hphase
      apply h.rollBack hphase
    · cases hstep
  | undo verdict now outcome =>
    dsimp only at hstep
    split at hstep
    · rename_i undo rest hrolling
      cases hstep
      rw [hrolling] at hphase
      apply h.undone hphase.2
      intro t hplan hjour hupTo
      have hfull : t.journal = if journaled then some t.fullJournal else none := by
        rw [hjour, MemoryTransfer.fullJournal, hplan]
        apply hphase.1
      split
      · next htrue => exact ⟨hfull, hupTo htrue⟩
      rename_i hfalse
      left
      simp only [orderly, hrolling, Bool.or_eq_true] at hord
      rw [hfull, if_pos (hord.resolve_right hfalse)]
    · rename_i undo rest hrecov
      cases hstep
      rw [hrecov] at hphase
      apply h.undone hphase.2
      intro t hplan hjour hupTo
      simp only [orderly, hrecov] at hord
      rw [if_pos hord]
      have hfull : t.journal = some t.fullJournal := by
        rw [hjour, MemoryTransfer.fullJournal, hplan]
        apply hphase.1
      exact ⟨hfull, hupTo hord⟩
    · cases hstep
  | clear =>
    dsimp only at hstep
    split at hstep
    · rename_i done happlying
      cases hstep
      rw [happlying] at hphase
      obtain ⟨-, hsplit, hdone, -⟩ := hphase
      rw [append_nil] at hsplit
      apply h.goTo
      intro operation hmem
      apply hdone
      rw [hsplit]
      apply hmem
    · rename_i hrolling
      cases hstep
      rw [hrolling] at hphase
      apply h.goTo
      intro operation hmem
      apply (hphase.2.2 operation hmem).resolve_left not_mem_nil
    · rename_i hrecov
      cases hstep
      rw [hrecov] at hphase
      apply h.goTo
      intro operation hmem
      apply (hphase.2.2 operation hmem).resolve_left not_mem_nil
    · cases hstep
  | stop =>
    simp only [orderly, Bool.or_eq_true, Bool.not_eq_true'] at hord
    have hstop : s.InPhase env journaled actorId .stopped := by
      cases hcur : s.phase with
      | planned =>
        rw [hcur] at hphase
        right
        use hphase.1
        intro operation hmem
        apply MemoryTransfer.Untouched.unseen
        apply hphase.2 operation hmem
      | applying done rest =>
        rw [hcur] at hphase hord
        obtain ⟨hjour, hsplit, -, hrest⟩ := hphase
        cases journaled with
        | true =>
          left
          apply hjour
        | false =>
        right
        use hjour
        cases done with
        | nil =>
          intro operation hmem
          apply MemoryTransfer.Untouched.unseen
          apply hrest operation
          · rw [nil_append] at hsplit
            rw [hsplit]
            apply hmem
          · apply not_mem_nil
        | cons p done => simp [TransferPhase.unsettled] at hord
      | rolling rest =>
        rw [hcur] at hphase hord
        obtain ⟨hjour, hupTo⟩ := hphase
        cases journaled with
        | true =>
          left
          apply hjour
        | false =>
        right
        use hjour
        cases rest with
        | nil =>
          intro operation hmem
          apply (hupTo.2 operation hmem).resolve_left not_mem_nil
        | cons undo rest => simp [TransferPhase.unsettled] at hord
      | stopped =>
        rw [hcur] at hphase
        apply hphase
      | recovering rest =>
        rw [hcur] at hphase
        left
        apply hphase.1
      | _ =>
        rw [hcur] at hstep
        cases hstep
    dsimp only at hstep
    split at hstep
    case h_6 =>
      cases hstep
      apply h.goTo
      apply hstop
    all_goals cases hstep
  | recover =>
  dsimp only at hstep
  split at hstep
  · rename_i hstop
    rw [hstop] at hphase
    split at hstep
    · rename_i hnone
      cases hstep
      rcases hphase with hsome | ⟨-, hunseen⟩
      · rw [hnone] at hsome
        cases hsome
      · apply h.goTo
        apply hunseen
    rename_i undos hsome
    cases hstep
    rcases hphase with hfull | ⟨hnone, -⟩
    · obtain rfl := Option.some.inj (hsome.symm.trans hfull)
      apply h.goTo
      refine ⟨hsome, ?_, ?_⟩
      · apply reverse_subset.mpr
        apply List.Subset.refl
      intro operation hmem
      left
      rw [mem_reverse]
      apply mem_map_of_mem hmem
    · rw [hsome] at hnone
      cases hnone
  · cases hstep

/-- Before an import nothing is under way. -/
theorem underway_start (stored : MemoryRecords) (scope : MemoryRecordScope) :
  Underway env journaled actorId (.start stored scope)
  := by
  constructor
  · intro _ _
    rfl
  · apply List.Pairwise.nil
  · intro operation hmem
    cases hmem
  · intro operation hmem
    cases hmem
  · exact ⟨rfl, rfl, rfl⟩

/-- An import that is over has imported all or nothing. -/
theorem Underway.atomic (h : Underway env journaled actorId s) (hover : s.phase.over) :
  Atomic env actorId s
  := by
  have hnone (hunseen : ∀ operation ∈ s.plan, s.Unseen operation) : NoneImported s := by
    intro id
    by_cases hid : id ∈ s.ids
    · obtain ⟨operation, hmem, rfl⟩ := mem_map.mp hid
      apply hunseen operation hmem
    · unfold visibleRecord
      rw [h.others id hid]
  have hphase := h.phase
  cases hcur : s.phase with
  | finished =>
    rw [hcur] at hphase
    left
    use hphase, h.others
  | failed | recovered =>
    rw [hcur] at hphase
    right
    apply hnone hphase
  | stuck =>
    rw [hcur] at hphase
    cases hphase
  | _ =>
    rw [hcur] at hover
    cases hover

end Keeping

/-! ### Runs -/

/-- A scope may see what is in it. -/
theorem hierarchicalAccess_self (scope : MemoryRecordScope) :
  hierarchicalAccess scope scope
  := by
  cases scope with
  | _ => simp [hierarchicalAccess]

/-- A note with this content. -/
def plainNote (id content : String) : MemoryRecord where
  id := id
  scope := sampleScope
  content := content
  provenance := { source := .user, actorId := none, sourceId := none, importedFrom := none }
  attachments := []
  tags := []
  pinned := false
  createdAt := "1970-01-01T00:00:01.000Z"
  updatedAt := "1970-01-01T00:00:01.000Z"
  deletedAt := none

/-- A repository with one note. -/
def oneNote : MemoryRecords where
  records := [plainNote "note" "first"]
  nodup := List.nodup_singleton _

/-- An import overwrites the note, and the hooks reject the other record of the document. -/
def secondRejected : List TransferAction :=
  [.plan .overwrite [plainNote "note" "second", plainNote "other" "third"], .begin,
    .apply (.ok ()) 2000 2000 .saved, .apply (.error memoryIo) 3000 3000 .saved]

/-- What was overwritten is put back. -/
def rolledBack : List TransferAction :=
  secondRejected ++ [.undo (.ok ()) 4000 .saved, .clear]

/-- The hooks reject what was there before, both when the import is rolled back and when it is
recovered. -/
def restoreRejected : List TransferAction :=
  secondRejected ++ [.undo (.error memoryIo) 4000 .saved, .recover, .undo (.ok ()) 5000 .saved,
      .undo (.error memoryIo) 6000 .saved]

end Storage
