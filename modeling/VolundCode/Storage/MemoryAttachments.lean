import VolundCode.Storage.MemoryVersions

/-!
# Transitions of attachments and other mutations

A transition of an attachment reads the attachments of its record before its update is in the
queue, and writes all of them. What has been done to the other attachments in between is undone.
If no transition writes attachments that are out of date, no update takes back a transition, and no
transition relies on a record that is not saved, then the records are what the calls that have
succeeded make of them one after the other, and every transition is still visible
(`reflected_of_undisturbed`).
-/

namespace Storage

open Run List

/-! ### What the calls are for -/

/-- An attachment without the times of its transitions. -/
def MemoryRecordAttachment.timeless (a : MemoryRecordAttachment) : MemoryRecordAttachment :=
  { a with invalidatedAt := none, deletedAt := none }

/-- What a record shows, without the times of its changes. -/
def MemoryRecord.shown (record : MemoryRecord) : MemoryRecord :=
  { record with
    attachments := record.attachments.map MemoryRecordAttachment.timeless
    updatedAt := ""
    deletedAt := if record.isDeleted then some "deleted" else none }

/-- The attachment is invalidated or deleted. -/
def MemoryRecordAttachment.settled (a : MemoryRecordAttachment) : Bool :=
  a.state ≠ .active

/-- The state `b` is as far as `a`, or further. -/
def MemoryAttachmentState.reaches (b a : MemoryAttachmentState) : Bool :=
  b = .deleted || b = a

/-- The attachment in the state of the transition, unless it is deleted. -/
def Transition.resolve (t : Transition) (a : MemoryRecordAttachment) : MemoryRecordAttachment :=
  if a.id = t.attachmentId ∧ a.state ≠ .deleted then { a with state := t.state.val } else a

/-- What a transition is for: the attachment is in its state, or further. -/
def Transition.perform (t : Transition) (attachments : List MemoryRecordAttachment) :
    List MemoryRecordAttachment :=
  match attachments.find? fun a => a.id = t.attachmentId with
  | some a => if a.state.reaches t.state.val then attachments else attachments.map t.resolve
  | none => attachments

/-- The tags that an update leads to. -/
def MemoryPatch.tagsOf (patch : MemoryPatch) (record : MemoryRecord) : List String :=
  match patch.tags with
  | some tags => (normalizeTags tags).toOption.getD record.tags
  | none => record.tags

/-- What an update or a deletion is for, on a record without times. -/
def MemoryMutation.perform : MemoryMutation → MemoryRecord → MemoryRecord
  | .update _ id patch _, r =>
    if r.id = id then
      (patched r patch (patch.tagsOf r) (patch.attachments.getD r.attachments)).shown
    else r
  | .delete _ id _, r =>
    if r.id = id ∧ r.isDeleted = false then { r with pinned := false, deletedAt := some "deleted" }
    else r
  | _, r => r

/-- What a call is for, on a record without times. -/
def Done.perform : Done → MemoryRecord → MemoryRecord
  | .mutation m, r => m.perform r
  | .transition t, r => if r.id = t.id then { r with attachments := t.perform r.attachments } else r

/-- The transition can be seen in the record. -/
def Transition.visible (t : Transition) (attachments : List MemoryRecordAttachment) : Prop :=
  ∃ a ∈ attachments, a.id = t.attachmentId ∧ a.state.reaches t.state.val

/-- The records are what the calls that have succeeded make of them one after the other, and every
transition that has succeeded can be seen. -/
structure Reflected (initial : MemoryRecords) (s : MemoryService) : Prop where
  performed : ∀ q ∈ initial.records, ∃ r, s.stored.get q.id = some r ∧
    r.shown = s.done.foldl (fun r d => d.perform r) q.shown
  visible : ∀ t, .transition t ∈ s.done → ∃ r, s.stored.get t.id = some r ∧ t.visible r.attachments

/-! ### Steps that disturb nothing -/

/-- The mutation is one that transitions compete with. -/
def MemoryMutation.competes : MemoryMutation → Bool
  | .update _ _ _ _ => true
  | .delete _ _ _ => true
  | _ => false

/-- The attachments that a job writes: those of a transition are what it makes of the attachments
of the record as it is stored; those of another update keep what transitions have done. -/
def Job.upToDate (stored : MemoryRecords) (job : Job) : Bool :=
  match job.mutation with
  | .update _ id patch _ =>
    (stored.get id).all fun current =>
      patch.attachments.all fun attachments =>
        match job.transition with
        | some t =>
          attachments.map MemoryRecordAttachment.timeless =
            (t.perform current.attachments).map MemoryRecordAttachment.timeless
        | none =>
          current.attachments.all fun a =>
            !a.settled || attachments.any fun b => b.id = a.id && b.state.reaches a.state
  | _ => true

/-- The step keeps transitions and other mutations out of each other's way: only updates and
deletions are called, a transition that finds nothing to do has found what is stored, and a mutation
starts with attachments that are up to date. -/
def undisturbed (env : ServiceExternals) (s : MemoryService) : ServiceAction → Bool
  | .call mutation => mutation.competes
  | .attach t now =>
    match t.observe env s.records now with
    | .ok none => s.stored.get t.id = s.records.get t.id
    | _ => true
  | .begin _ _ => s.waiting.head?.all (Job.upToDate s.stored)
  | _ => true

/-! ### Attachments -/

section Attachments

variable {t : Transition} {a b : MemoryRecordAttachment}
  {attachments : List MemoryRecordAttachment}

theorem reaches_refl (state : MemoryAttachmentState) :
  state.reaches state
  := by
  simp [MemoryAttachmentState.reaches]

theorem reaches_trans {x y z : MemoryAttachmentState} (hxy : x.reaches y) (hyz : y.reaches z) :
  x.reaches z
  := by
  simp only [MemoryAttachmentState.reaches, Bool.or_eq_true, decide_eq_true_eq] at hxy hyz ⊢
  rcases hxy with hdel | rfl
  · left
    apply hdel
  · apply hyz

/-- A transition moves an attachment that is settled only forward. -/
theorem resolve_reaches (ha : a.settled) :
  (t.resolve a).state.reaches a.state
  := by
  unfold Transition.resolve
  split
  · rename_i h
    have hact : a.state ≠ .active := by simpa [MemoryRecordAttachment.settled] using ha
    have hstate := t.state.property
    have hinvalidated : a.state = .invalidated := by
      cases hs : a.state with
      | active => exact absurd hs hact
      | invalidated => rfl
      | deleted => exact absurd hs h.2
    change t.state.val.reaches a.state = true
    rw [hinvalidated]
    cases ht : t.state.val with
    | active => exact absurd ht hstate
    | invalidated | deleted => rfl
  · apply reaches_refl

@[simp]
theorem resolve_id : (t.resolve a).id = a.id
  := by
  unfold Transition.resolve
  split
  · rfl
  · rfl

/-- An attachment that is settled is still there after a transition, as far or further. -/
theorem exists_perform (ha : a ∈ attachments) (hset : a.settled) :
  ∃ b ∈ t.perform attachments, b.id = a.id ∧ b.state.reaches a.state
  := by
  unfold Transition.perform
  split
  · split
    · use a, ha, rfl
      apply reaches_refl
    · use t.resolve a, mem_map_of_mem ha, resolve_id
      apply resolve_reaches hset
  · use a, ha, rfl
    apply reaches_refl

/-- Attachments that differ in their times only have the same states. -/
theorem exists_of_timeless {xs ys : List MemoryRecordAttachment}
    (h : xs.map MemoryRecordAttachment.timeless = ys.map MemoryRecordAttachment.timeless)
    (hb : b ∈ ys) :
  ∃ a ∈ xs, a.id = b.id ∧ a.state = b.state
  := by
  have hmem : b.timeless ∈ xs.map MemoryRecordAttachment.timeless := by
    rw [h]
    apply mem_map_of_mem hb
  obtain ⟨a, ha, heq⟩ := mem_map.mp hmem
  have hid : a.timeless.id = b.timeless.id := congrArg MemoryRecordAttachment.id heq
  have hstate : a.timeless.state = b.timeless.state := congrArg MemoryRecordAttachment.state heq
  use a, ha, hid, hstate

/-- What a transition is for does not depend on the times of the attachments. -/
theorem perform_timeless :
  t.perform (attachments.map MemoryRecordAttachment.timeless) =
    (t.perform attachments).map MemoryRecordAttachment.timeless
  := by
  have hresolve : ∀ a : MemoryRecordAttachment, t.resolve a.timeless = (t.resolve a).timeless := by
    intro a
    unfold Transition.resolve MemoryRecordAttachment.timeless
    dsimp only
    split
    · rfl
    · rfl
  have hfind : (attachments.map MemoryRecordAttachment.timeless).find?
      (fun a => a.id = t.attachmentId) =
      (attachments.find? fun a => a.id = t.attachmentId).map MemoryRecordAttachment.timeless :=
    List.find?_map
  unfold Transition.perform
  rw [hfind]
  cases attachments.find? fun a => a.id = t.attachmentId with
  | none => rfl
  | some a =>
  dsimp only [Option.map_some]
  have hstate : a.timeless.state = a.state := rfl
  rw [hstate]
  split
  · rfl
  rw [map_map, map_map]
  apply map_congr_left
  intro b _
  apply hresolve

@[simp]
theorem timeless_timeless : a.timeless.timeless = a.timeless
  := rfl

end Attachments

/-! ### Records without times -/

section Shown

variable {r : MemoryRecord}

@[simp]
theorem id_shown : r.shown.id = r.id
  := rfl

@[simp]
theorem isDeleted_shown : r.shown.isDeleted = r.isDeleted
  := by
  unfold MemoryRecord.shown
  cases h : r.isDeleted with
  | true | false => rfl

/-- A record without its attachments and times. -/
def MemoryRecord.bare (record : MemoryRecord) : MemoryRecord :=
  { record with attachments := [], updatedAt := "", deletedAt := none }

/-- Two records show the same if they differ in times only. -/
theorem shown_ext {q : MemoryRecord} (hbare : r.bare = q.bare)
    (hatts : r.attachments.map MemoryRecordAttachment.timeless =
      q.attachments.map MemoryRecordAttachment.timeless)
    (hdel : r.isDeleted = q.isDeleted) :
  r.shown = q.shown
  := by
  change { r.bare with
    attachments := r.attachments.map MemoryRecordAttachment.timeless
    deletedAt := if r.isDeleted then some "deleted" else none } = _
  rw [hbare, hatts, hdel]
  rfl

end Shown

/-! ### What a job makes of a record -/

section Jobs

variable {env : ServiceExternals} {stored : MemoryRecords} {verdict : Except MemoryError Unit}
  {now : ℤ} {change : Change} {r : MemoryRecord}

/-- The record after a change shows what the call is for, and its attachments are as far as before,
or further. -/
def Succeeds (d : Done) (change : Change) (stored : MemoryRecords) (r : MemoryRecord) : Prop :=
  ∃ r' ∈ (change.apply stored).records, r'.id = r.id ∧ r'.shown = d.perform r.shown ∧
    ∀ a ∈ r.attachments, a.settled → ∃ b ∈ r'.attachments, b.id = a.id ∧ b.state.reaches a.state

/-- A record with another id is left alone. -/
theorem succeeds_of_ne {d : Done} (hr : r ∈ stored.records)
    (hchg : change = .keep ∨ ∃ record, change = .write record ∧ record.id ≠ r.id)
    (hd : d.perform r.shown = r.shown) :
  Succeeds d change stored r
  := by
  refine ⟨r, ?_, rfl, hd.symm, ?_⟩
  · rcases hchg with rfl | ⟨record, rfl, hne⟩
    · apply hr
    · apply MemoryRecords.mem_set.mpr
      right
      use hr, hne.symm
  · intro a ha _
    use a, ha, rfl
    apply reaches_refl

/-- The tags that an update leads to are those it is for. -/
theorem tagsOf_shown {patch : MemoryPatch} {tags : List String}
    (h : patchedTags r patch = .ok tags) :
  patch.tagsOf r.shown = tags
  := by
  unfold patchedTags at h
  unfold MemoryPatch.tagsOf
  cases hp : patch.tags with
  | none =>
    rw [hp] at h
    apply Except.ok.inj h
  | some given =>
  rw [hp] at h
  dsimp only at h ⊢
  rw [h]
  rfl

/-- An update writes a record that shows what it is for. -/
theorem shown_patched {patch : MemoryPatch} {tags : List String}
    {attachments : List MemoryRecordAttachment} (htags : patchedTags r patch = .ok tags)
    (hatts : patchedAttachments env r patch = .ok attachments) :
  (patched r patch tags attachments).shown = (patched r.shown patch (patch.tagsOf r.shown)
      (patch.attachments.getD r.shown.attachments)).shown
  := by
  rw [tagsOf_shown htags, patchedAttachments_eq_ok hatts]
  have hsame : (patch.attachments.getD r.attachments).map MemoryRecordAttachment.timeless =
      (patch.attachments.getD r.shown.attachments).map MemoryRecordAttachment.timeless := by
    cases patch.attachments with
    | none => simp [MemoryRecord.shown, Function.comp_def]
    | some given => rfl
  apply shown_ext
  · rfl
  · apply hsame
  · apply isDeleted_shown.symm

/-- An update succeeds for a call that is for the same as the update, if it keeps what transitions
have done. -/
theorem succeeds_update {scope : MemoryRecordScope} {id : String} {patch : MemoryPatch}
    {expected : Option String} {d : Done}
    (h : evaluateUpdate env stored verdict now scope id patch expected = .ok change)
    (hr : r ∈ stored.records) (hother : r.id ≠ id → d.perform r.shown = r.shown) (hown : r.id = id →
      d.perform r.shown = (MemoryMutation.update scope id patch expected).perform r.shown)
    (hkeeps : r.id = id → ∀ a ∈ r.attachments, a.settled →
      ∃ b ∈ patch.attachments.getD r.attachments, b.id = a.id ∧ b.state.reaches a.state) :
  Succeeds d change stored r
  := by
  obtain ⟨current, tags, attachments, hget, -, -, htags, hatts, hchg⟩ := evaluateUpdate_eq_ok h
  obtain ⟨hcur, hcurId⟩ := MemoryRecords.get_eq_some.mp hget
  by_cases hid : r.id = id
  · obtain rfl : current = r := stored.eq_of_id hcur hr (hcurId.trans hid.symm)
    have hperform : (patched current patch tags attachments).shown = d.perform current.shown := by
      rw [hown hid, MemoryMutation.perform, id_shown, if_pos hid, shown_patched htags hatts]
    have hfar : ∀ a ∈ current.attachments, a.settled →
        ∃ b ∈ attachments, b.id = a.id ∧ b.state.reaches a.state := by
      rw [patchedAttachments_eq_ok hatts]
      apply hkeeps hid
    rcases hchg with ⟨hsame, rfl⟩ | ⟨time, -, rfl⟩
    · refine ⟨current, hr, rfl, ?_, ?_⟩
      · rw [← hperform, hsame]
      · intro a ha _
        use a, ha, rfl
        apply reaches_refl
    · refine ⟨_, MemoryRecords.mem_set.mpr (Or.inl rfl), rfl, ?_, hfar⟩
      rw [← hperform]
      rfl
  apply succeeds_of_ne hr _ (hother hid)
  rcases hchg with ⟨-, rfl⟩ | ⟨time, -, rfl⟩
  · left
    rfl
  right
  refine ⟨_, rfl, ?_⟩
  intro heq
  apply hid
  rw [← heq]
  apply hcurId

/-- A deletion succeeds. -/
theorem succeeds_delete {scope : MemoryRecordScope} {id : String} {expected : Option String}
    (h : evaluateDelete env stored now scope id expected = .ok change) (hr : r ∈ stored.records) :
  Succeeds (.mutation (.delete scope id expected)) change stored r
  := by
  obtain ⟨current, hget, hchg⟩ := evaluateDelete_eq_ok h
  obtain ⟨hcur, hcurId⟩ := MemoryRecords.get_eq_some.mp hget
  by_cases hid : r.id = id
  · obtain rfl : current = r := stored.eq_of_id hcur hr (hcurId.trans hid.symm)
    have hkeeps : ∀ a ∈ current.attachments, a.settled →
        ∃ b ∈ current.attachments, b.id = a.id ∧ b.state.reaches a.state := by
      intro a ha _
      use a, ha, rfl
      apply reaches_refl
    rcases hchg with ⟨hdel, rfl⟩ | ⟨hpres, time, htime, rfl⟩
    · refine ⟨current, hr, rfl, ?_, hkeeps⟩
      simp [Done.perform, MemoryMutation.perform, hdel]
    refine ⟨_, MemoryRecords.mem_set.mpr (Or.inl rfl), rfl, ?_, hkeeps⟩
    have hnew : time ≠ "" := ne_empty_of_earlier (earlier_nextTimestamp htime)
    have hwhen : current.shown.id = id ∧ current.shown.isDeleted = false := by
      rw [isDeleted_shown]
      use hid, hpres
    rw [Done.perform, MemoryMutation.perform, if_pos hwhen]
    simp [MemoryRecord.shown, MemoryRecord.isDeleted, hnew]
  apply succeeds_of_ne hr
  · rcases hchg with ⟨-, rfl⟩ | ⟨-, time, -, rfl⟩
    · left
      rfl
    right
    refine ⟨_, rfl, ?_⟩
    intro heq
    apply hid
    rw [← heq]
    apply hcurId
  · simp [Done.perform, MemoryMutation.perform, hid]

/-- A job is a competing call, or the update of a transition that has found its attachment. -/
def Job.Sound (job : Job) : Prop :=
  match job.transition with
  | none => job.mutation.competes
  | some t => ∃ attachments, job.mutation = (t.job attachments).mutation ∧
      ∃ a ∈ attachments, a.id = t.attachmentId ∧ a.state = t.state.val

/-- What a transition writes shows what it is for, if it is up to date. -/
theorem perform_job {t : Transition} {attachments : List MemoryRecordAttachment} (hid : r.id = t.id)
    (hfresh : attachments.map MemoryRecordAttachment.timeless =
      (t.perform r.attachments).map MemoryRecordAttachment.timeless) :
  (Done.transition t).perform r.shown = (t.job attachments).mutation.perform r.shown
  := by
  rw [Done.perform, Transition.job, MemoryMutation.perform, id_shown, if_pos hid, if_pos hid]
  have hshown : r.shown.attachments = r.attachments.map MemoryRecordAttachment.timeless := rfl
  rw [hshown, perform_timeless, ← hfresh]
  unfold MemoryRecord.shown patched
  cases h : r.isDeleted with
  | true | false => rfl

/-- A job that is up to date succeeds for its call. -/
theorem succeeds_of_evaluate {job : Job} (hsound : job.Sound) (hfresh : job.upToDate stored)
    (h : evaluate env stored verdict now job.mutation = .ok change) (hr : r ∈ stored.records) :
  Succeeds job.done change stored r
  := by
  obtain ⟨m, transition⟩ := job
  cases transition with
  | none =>
    cases m with
    | update scope id patch expected =>
      apply succeeds_update h hr
      · intro hid
        simp [Job.done, Done.perform, MemoryMutation.perform, hid]
      · intro _
        rfl
      intro hid a ha hset
      have hget : stored.get id = some r := MemoryRecords.get_eq_some.mpr ⟨hr, hid⟩
      simp only [Job.upToDate, hget, Option.all_some] at hfresh
      cases hpatch : patch.attachments with
      | none =>
        use a, ha, rfl
        apply reaches_refl
      | some attachments =>
        rw [hpatch, Option.all_some, all_eq_true] at hfresh
        have hkeeps := hfresh a ha
        simpa [hset] using hkeeps
    | delete scope id expected => apply succeeds_delete h hr
    | create input | move scope id target expected | gcSessions cutoff => cases hsound
  | some t =>
  obtain ⟨attachments, hmut, -⟩ := hsound
  dsimp only at hmut
  subst hmut
  have hcur : r.id = t.id → attachments.map MemoryRecordAttachment.timeless =
      (t.perform r.attachments).map MemoryRecordAttachment.timeless := by
    intro hid
    have hget : stored.get t.id = some r := MemoryRecords.get_eq_some.mpr ⟨hr, hid⟩
    simpa [Job.upToDate, Transition.job, hget] using hfresh
  apply succeeds_update h hr
  · intro hid
    simp [Job.done, Done.perform, hid]
  · intro hid
    apply perform_job hid (hcur hid)
  intro hid a ha hset
  obtain ⟨b, hb, hbid, hbstate⟩ := exists_perform (t := t) ha hset
  obtain ⟨c, hc, hcid, hcstate⟩ := exists_of_timeless (hcur hid) hb
  use c, hc, hcid.trans hbid
  rw [hcstate]
  apply hbstate

/-- The update of a transition leaves it visible. -/
theorem visible_of_evaluate {t : Transition} {attachments : List MemoryRecordAttachment}
    (hfound : ∃ a ∈ attachments, a.id = t.attachmentId ∧ a.state = t.state.val)
    (h : evaluate env stored verdict now (t.job attachments).mutation = .ok change) :
  ∃ r, (change.apply stored).get t.id = some r ∧ t.visible r.attachments
  := by
  obtain ⟨current, tags, written, hget, -, -, -, hwrote, hchg⟩ := evaluateUpdate_eq_ok h
  obtain ⟨hcur, hcurId⟩ := MemoryRecords.get_eq_some.mp hget
  have hsame : written = attachments := patchedAttachments_eq_ok hwrote
  have hvisible : t.visible written := by
    obtain ⟨a, ha, haid, hastate⟩ := hfound
    rw [hsame]
    use a, ha, haid
    rw [hastate]
    apply reaches_refl
  rcases hchg with ⟨hkeep, rfl⟩ | ⟨time, -, rfl⟩
  · use current, hget
    rw [← hkeep]
    apply hvisible
  · refine ⟨_, MemoryRecords.get_eq_some.mpr ⟨MemoryRecords.mem_set.mpr (Or.inl rfl), ?_⟩, hvisible⟩
    apply hcurId

end Jobs

/-! ### Reading for a transition -/

section Observing

variable {env : ServiceExternals} {records : MemoryRecords} {t : Transition} {now : ℤ}

/-- What a transition found when it was not rejected. -/
theorem observe_eq_ok {found : Option (List MemoryRecordAttachment)}
    (h : t.observe env records now = .ok found) :
  ∃ current a, records.get t.id = some current ∧
    (current.attachments.find? fun a => a.id = t.attachmentId) = some a ∧
    (a.state.reaches t.state.val ∧ found = none ∨
      ∃ time, found = some (current.attachments.map (t.settle time)))
  := by
  unfold Transition.observe at h
  split at h
  · cases h
  rename_i current hget
  split at h
  · cases h
  obtain ⟨_, _, h⟩ := bind_eq_ok.mp h
  split at h
  · cases h
  rename_i a hfind
  use current, a, hget, hfind
  split at h
  · rename_i hstate
    left
    constructor
    · simpa [MemoryAttachmentState.reaches] using hstate
    · apply (Except.ok.inj h).symm
  right
  obtain ⟨time, _, h⟩ := bind_eq_ok.mp h
  use time
  apply (Except.ok.inj h).symm

/-- The attachments that a transition writes have the one it is about in its state. -/
theorem exists_of_observe {attachments : List MemoryRecordAttachment}
    (h : t.observe env records now = .ok (some attachments)) :
  ∃ a ∈ attachments, a.id = t.attachmentId ∧ a.state = t.state.val
  := by
  obtain ⟨current, a, -, hfind, ⟨-, hnone⟩ | ⟨time, hsome⟩⟩ := observe_eq_ok h
  · cases hnone
  cases hsome
  have hid : a.id = t.attachmentId := by simpa using List.find?_some hfind
  use t.settle time a, mem_map_of_mem (mem_of_find?_eq_some hfind)
  simp [Transition.settle, hid]

/-- A transition that finds nothing to do is visible, and is for the record as it is. -/
theorem visible_of_observe (h : t.observe env records now = .ok none) :
  ∃ current, records.get t.id = some current ∧ t.visible current.attachments ∧
    t.perform current.attachments = current.attachments
  := by
  obtain ⟨current, a, hget, hfind, ⟨hreach, -⟩ | ⟨time, hsome⟩⟩ := observe_eq_ok h
  · use current, hget
    constructor
    · use a, mem_of_find?_eq_some hfind
      use by simpa using List.find?_some hfind
    · rw [Transition.perform, hfind]
      dsimp only
      rw [if_pos hreach]
  · cases hsome

end Observing

/-! ### Runs -/

section Runs

variable {env : ServiceExternals} {initial : MemoryRecords} {s t : MemoryService}

/-- The jobs of the service are sound, the one that is being saved is up to date, and the calls so
far are reflected. -/
structure Undisturbed (initial : MemoryRecords) (s : MemoryService) : Prop where
  queued : ∀ job ∈ s.pending ++ s.waiting, job.Sound
  running : ∀ running ∈ s.running, running.job.Sound ∧ running.job.upToDate s.stored
  reflected : Reflected initial s

theorem undisturbed_start :
  Undisturbed initial (.start initial)
  := by
  constructor
  · intro job hjob
    cases hjob
  · intro running hruns
    cases hruns
  constructor
  · intro q hq
    use q, MemoryRecords.get_eq_some.mpr ⟨hq, rfl⟩
    rfl
  · intro t ht
    cases ht

/-- A transition that finds nothing to do is reflected. -/
theorem Reflected.observed (h : Reflected initial s) {transition : Transition}
    {current : MemoryRecord} (hget : s.stored.get transition.id = some current)
    (hvisible : transition.visible current.attachments)
    (hperform : transition.perform current.attachments = current.attachments) :
  Reflected initial { s with done := s.done ++ [.transition transition] }
  := by
  constructor
  · intro q hq
    obtain ⟨r, hr, hshown⟩ := h.performed q hq
    use r, hr
    rw [foldl_append, ← hshown, foldl_cons, foldl_nil, Done.perform]
    split
    · rename_i hid
      obtain ⟨-, hrid⟩ := MemoryRecords.get_eq_some.mp hr
      have hsame : r = current := by
        rw [id_shown, hrid] at hid
        rw [hid] at hr
        apply Option.some.inj (hr.symm.trans hget)
      have hatts : transition.perform r.shown.attachments = r.shown.attachments := by
        change transition.perform (r.attachments.map MemoryRecordAttachment.timeless) =
          r.attachments.map MemoryRecordAttachment.timeless
        rw [perform_timeless, hsame, hperform]
      rw [hatts]
    · rfl
  intro t ht
  rcases mem_append.mp ht with ht | ht
  · apply h.visible t ht
  · obtain rfl : t = transition := by simpa using ht
    use current, hget

/-- A job that has been saved is reflected, if it was up to date. -/
theorem Reflected.saved (h : Reflected initial s) {running : Running}
    {verdict : Except MemoryError Unit} (hrecs : s.records = running.change.apply s.stored)
    (heval : evaluate env s.stored verdict running.now running.job.mutation = .ok running.change)
    (hsound : running.job.Sound) (hfresh : running.job.upToDate s.stored) :
  Reflected initial (s.save running true)
  := by
  have hsucc : ∀ r ∈ s.stored.records, Succeeds running.job.done running.change s.stored r := by
    intro r hr
    apply succeeds_of_evaluate hsound hfresh heval hr
  have hstor : (s.save running true).stored = running.change.apply s.stored := hrecs
  constructor
  · intro q hq
    obtain ⟨r, hr, hshown⟩ := h.performed q hq
    obtain ⟨hmem, hid⟩ := MemoryRecords.get_eq_some.mp hr
    obtain ⟨r', hr', hid', hshown', -⟩ := hsucc r hmem
    use r'
    constructor
    · rw [hstor]
      apply MemoryRecords.get_eq_some.mpr ⟨hr', hid'.trans hid⟩
    · change r'.shown = (s.done ++ [running.job.done]).foldl (fun r d => d.perform r) q.shown
      rw [foldl_append, ← hshown, hshown']
      rfl
  intro t ht
  change Done.transition t ∈ s.done ++ [running.job.done] at ht
  rw [hstor]
  rcases mem_append.mp ht with ht | ht
  · obtain ⟨r, hr, a, ha, haid, hastate⟩ := h.visible t ht
    obtain ⟨hmem, hid⟩ := MemoryRecords.get_eq_some.mp hr
    obtain ⟨r', hr', hid', -, hkeeps⟩ := hsucc r hmem
    have hset : a.settled := by
      have hact := t.state.property
      cases hs : a.state with
      | active =>
        rw [hs] at hastate
        simp [MemoryAttachmentState.reaches] at hastate
        exact absurd hastate.symm hact
      | invalidated | deleted => simp [MemoryRecordAttachment.settled, hs]
    obtain ⟨b, hb, hbid, hbstate⟩ := hkeeps a ha hset
    use r', MemoryRecords.get_eq_some.mpr ⟨hr', hid'.trans hid⟩, b, hb, hbid.trans haid
    apply reaches_trans hbstate hastate
  have hdone : running.job.done = .transition t := (mem_singleton.mp ht).symm
  unfold Job.done at hdone
  unfold Job.Sound at hsound
  cases htransition : running.job.transition with
  | none =>
    rw [htransition] at hdone
    cases hdone
  | some t' =>
  rw [htransition] at hdone hsound
  obtain rfl : t' = t := Done.transition.inj hdone
  obtain ⟨attachments, hmut, hfound⟩ := hsound
  rw [hmut] at heval
  apply visible_of_evaluate hfound heval

theorem Undisturbed.step {a : ServiceAction} (h : Undisturbed initial s)
    (hdec : Decided env s) (ha : undisturbed env s a) (hstep : serviceStep env s a = some t) :
  Undisturbed initial t
  := by
  cases a with
  | call mutation =>
    cases hstep
    constructor
    · intro job hjob
      change job ∈ s.pending ++ (s.waiting ++ [{ mutation := mutation, transition := none }])
        at hjob
      rw [← append_assoc] at hjob
      rcases mem_append.mp hjob with hjob | hjob
      · apply h.queued job hjob
      · obtain rfl := mem_singleton.mp hjob
        apply ha
    · apply h.running
    · use h.reflected.performed, h.reflected.visible
  | attach transition now =>
    cases hstep
    unfold undisturbed at ha
    unfold MemoryService.attach
    cases hobserve : transition.observe env s.records now with
    | error e => apply h
    | ok found =>
    cases found with
    | none =>
      dsimp only at ha
      rw [hobserve] at ha
      have hsame : s.stored.get transition.id = s.records.get transition.id := by
        simpa using ha
      obtain ⟨current, hget, hvisible, hperform⟩ := visible_of_observe hobserve
      use h.queued, h.running
      apply h.reflected.observed (hsame.trans hget) hvisible hperform
    | some attachments =>
    constructor
    · intro job hjob
      change job ∈ s.pending ++ [transition.job attachments] ++ s.waiting at hjob
      rcases mem_append.mp hjob with hjob | hjob
      · rcases mem_append.mp hjob with hjob | hjob
        · apply h.queued job (mem_append_left _ hjob)
        · obtain rfl := mem_singleton.mp hjob
          use attachments, rfl
          apply exists_of_observe hobserve
      · apply h.queued job (mem_append_right _ hjob)
    · apply h.running
    · use h.reflected.performed, h.reflected.visible
  | submit index =>
    obtain ⟨job, hjob, rfl⟩ := Option.map_eq_some_iff.mp hstep
    constructor
    · intro other hother
      change other ∈ s.pending.eraseIdx index ++ (s.waiting ++ [job]) at hother
      rcases mem_append.mp hother with hother | hother
      · apply h.queued other (mem_append_left _ (mem_of_mem_eraseIdx hother))
      rcases mem_append.mp hother with hother | hother
      · apply h.queued other (mem_append_right _ hother)
      · obtain rfl := mem_singleton.mp hother
        apply h.queued other (mem_append_left _ (mem_of_getElem? hjob))
    · apply h.running
    · use h.reflected.performed, h.reflected.visible
  | begin verdict now =>
    unfold serviceStep at hstep
    dsimp only at hstep
    split at hstep
    · rename_i job waiting hidle hwait
      cases hstep
      have hrest : ∀ other ∈ s.pending ++ waiting, other.Sound := by
        intro other hother
        apply h.queued other
        rw [hwait]
        rcases mem_append.mp hother with hother | hother
        · apply mem_append_left _ hother
        · apply mem_append_right _ (mem_cons_of_mem job hother)
      have hjob : job.Sound := by
        apply h.queued job
        rw [hwait]
        apply mem_append_right _ mem_cons_self
      have hfresh : job.upToDate s.stored := by
        simpa [undisturbed, hwait] using ha
      unfold MemoryService.begin
      split
      · constructor
        · apply hrest
        · apply h.running
        · use h.reflected.performed, h.reflected.visible
      constructor
      · apply hrest
      · intro running hruns
        cases hruns
        use hjob
      · use h.reflected.performed, h.reflected.visible
    · cases hstep
  | save succeeds =>
  obtain ⟨running, hruns, rfl⟩ := Option.map_eq_some_iff.mp hstep
  obtain ⟨hsound, hfresh⟩ := h.running running hruns
  obtain ⟨hrecs, verdict, heval⟩ := hdec.running running hruns
  cases succeeds with
  | false =>
    constructor
    · apply h.queued
    · intro _ hnone
      cases hnone
    · use h.reflected.performed, h.reflected.visible
  | true =>
  constructor
  · apply h.queued
  · intro _ hnone
    cases hnone
  · apply h.reflected.saved hrecs heval hsound hfresh

/-- In a run of updates, deletions and transitions of attachments whose steps disturb nothing, the
records are what the calls that have succeeded make of them one after the other, and every
transition that has succeeded can be seen. -/
theorem reflected_of_undisturbed {actions : List ServiceAction}
    (hok : Guarded (serviceStep env) (fun s a => undisturbed env s a) (.start initial)
      actions)
    (hrun : run (serviceStep env) (.start initial) actions = some s) :
  Reflected initial s
  := by
  have hinv : Decided env s ∧ Undisturbed initial s := by
    apply hok.invariant (I := fun s => Decided env s ∧ Undisturbed initial s) _ _ hrun
    · rintro s a t ⟨hdec, hcalm⟩ ha hstep
      use hdec.step hstep
      apply hcalm.step hdec ha hstep
    · use decided_start env initial
      apply undisturbed_start
  apply hinv.2.reflected

end Runs

/-! ### Two transitions of one record -/

/-- An attachment for examples. -/
def sampleAttachment (id : String) : MemoryRecordAttachment where
  id := id
  handle := String.ofList (List.replicate 64 'a' ++ ".png".toList)
  mime := "image/png"
  size := 1
  digest := String.ofList (List.replicate 64 'a')
  state := .active
  createdAt := "1970-01-01T00:00:01.000Z"
  invalidatedAt := none
  deletedAt := none

/-- A record with two attachments. -/
def illustratedNote : MemoryRecord where
  id := "note"
  scope := sampleScope
  content := "first"
  provenance := { source := .user, actorId := none, sourceId := none, importedFrom := none }
  attachments := [sampleAttachment "left", sampleAttachment "right"]
  tags := []
  pinned := false
  createdAt := "1970-01-01T00:00:01.000Z"
  updatedAt := "1970-01-01T00:00:01.000Z"
  deletedAt := none

/-- A repository with that record. -/
def illustrated : MemoryRecords where
  records := [illustratedNote]
  nodup := List.nodup_singleton _

/-- The deletion of one of its attachments. -/
def deletes (attachmentId : String) : Transition where
  scope := sampleScope
  id := "note"
  attachmentId := attachmentId
  state := ⟨.deleted, by decide⟩
  expected := none

/-- An update of the content comes between the read of a transition and its update. -/
def updateBetween : List ServiceAction :=
  [.attach (deletes "left") 2000] ++
    performed (.update sampleScope "note" { MemoryPatch.none with content := some "second" } none)
      3000 ++
    [.submit 0, .begin (.ok ()) 4000, .save true]

theorem reflected_of_undisturbed_updateBetween :
  ∃ s, run (serviceStep sampleService) (.start illustrated) updateBetween = some s ∧
    Reflected illustrated s
  := by
  have hreach : (run (serviceStep sampleService) (.start illustrated)
      updateBetween).isSome := by decide +kernel
  obtain ⟨s, hrun⟩ := Option.isSome_iff_exists.mp hreach
  use s, hrun
  apply reflected_of_undisturbed _ hrun
  decide +kernel

/-- Two transitions read the record before the update of either. -/
def readTogether : List ServiceAction :=
  [.attach (deletes "left") 2000, .attach (deletes "right") 2000, .submit 0, .submit 0,
    .begin (.ok ()) 3000, .save true, .begin (.ok ()) 4000, .save true]

/-- The second of two transitions that read the record together undoes the first. -/
theorem not_reflected :
  ∃ s, run (serviceStep sampleService) (.start illustrated) readTogether = some s ∧
    .transition (deletes "left") ∈ s.done ∧ ¬ Reflected illustrated s
  := by
  have hreach : (run (serviceStep sampleService) (.start illustrated)
      readTogether).any (fun s => decide (.transition (deletes "left") ∈ s.done) &&
        (s.stored.get "note").any fun r =>
          r.attachments.all fun a => decide (a.id = "left" → a.state = .active)) := by
    decide +kernel
  obtain ⟨s, hrun, hs⟩ := Option.any_eq_true _ _ |>.mp hreach
  simp only [Bool.and_eq_true, decide_eq_true_eq, Option.any_eq_true, all_eq_true] at hs
  obtain ⟨hdone, r, hget, hact⟩ := hs
  use s, hrun, hdone
  intro hreflected
  obtain ⟨r', hget', a, ha, hid, hstate⟩ := hreflected.visible _ hdone
  obtain rfl := Option.some.inj (hget.symm.trans hget')
  rw [hact a ha hid] at hstate
  cases hstate

end Storage
