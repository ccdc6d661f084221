import VolundCode.AppRuntime.SessionPolicy

/-!
# The release of a lineage

A top-level session is the root of a lineage: of all sessions whose parents lead to it. Children
share the snapshot of their parent, and the release of the root drops the snapshots that are the
same object as its own. An escalation puts a new object in the place of the snapshot of one session.
So a release drops the lineage and nothing else in every state of a run exactly where no session is
escalated to another mode while another one of its lineage has a snapshot (`releases_iff`).
-/

namespace Permission.SessionPolicy

open Run ProductionPermissionSessionPolicy Function

/-! ### Lineages -/

section Lineages

variable (lineage : String → Lineage)

/-- The parents of a session lead to a top-level session. -/
inductive LeadsTo : String → String → Prop
  | root {id : String} (hdepth : (lineage id).depth = 0) : LeadsTo id id
  | child {id parent root : String} (hdepth : (lineage id).depth ≠ 0)
      (hparent : (lineage id).parentSessionId = some parent) (hne : parent ≠ "")
      (h : LeadsTo parent root) : LeadsTo id root

/-- The release of a root drops the snapshots of its lineage, and leaves those of the others. -/
structure Releases (s : Observed) : Prop where
  dropped : ∀ root id, LeadsTo lineage id root → (s.policy.releaseLineage root).snapshots id = none
  kept : ∀ root other id, (lineage root).depth = 0 → other ≠ root → LeadsTo lineage id other →
    (s.policy.releaseLineage root).snapshots id = s.policy.snapshots id

/-- A session that is escalated to another mode is the only one of its lineage with a snapshot. -/
def Alone (s : Observed) : Action → Prop
  | .escalateSessionMode id mode => ∀ existing, s.policy.snapshots id = some existing →
    existing.mode ≠ mode → ∀ root other, LeadsTo lineage id root → LeadsTo lineage other root →
      other ≠ id → s.policy.snapshots other = none
  | _ => True

/-- Each session has the snapshot of its root, and two roots do not have the same. -/
structure Shared (p : ProductionPermissionSessionPolicy) : Prop where
  root : ∀ id v, p.snapshots id = some v →
    ∃ root rv, LeadsTo lineage id root ∧ p.snapshots root = some rv ∧ rv.object = v.object
  distinct : ∀ r r' v v', (lineage r).depth = 0 → (lineage r').depth = 0 →
    p.snapshots r = some v → p.snapshots r' = some v' → v.object = v'.object → r = r'
  fresh : ∀ id v, p.snapshots id = some v → v.object < p.frozen

variable {lineage}

theorem LeadsTo.depth_eq_zero {id root : String} (h : LeadsTo lineage id root) :
  (lineage root).depth = 0
  := by
  induction h with
  | root hdepth => apply hdepth
  | child hdepth hparent hne h ih => apply ih

/-- The parents of a session lead to one root. -/
theorem LeadsTo.unique {id root root' : String} (h : LeadsTo lineage id root)
    (h' : LeadsTo lineage id root') :
  root = root'
  := by
  induction h with
  | root hdepth =>
    cases h' with
    | root hdepth' => rfl
    | child hdepth' hparent' hne' h' => contradiction
  | child hdepth hparent hne h ih =>
  cases h' with
  | root hdepth' => contradiction
  | child hdepth' hparent' hne' h' =>
    rw [hparent] at hparent'
    cases hparent'
    apply ih h'

variable {p : ProductionPermissionSessionPolicy} {id : String}

variable {v : ProductionPermissionSessionSnapshot}

/-- What a release leaves. -/
theorem snapshots_releaseLineage {released : String}
    (h : p.snapshots released = some v) (id : String) :
  (p.releaseLineage released).snapshots id =
    (p.snapshots id).filter fun value => value.object ≠ v.object
  := by
  rw [releaseLineage, h]

theorem Shared.initial :
  Shared lineage ProductionPermissionSessionPolicy.initial
  := by
  constructor
  · intro id v h
    contradiction
  · intro r r' v v' _ _ h
    contradiction
  · intro id v h
    contradiction

/-- The snapshot of a session is that of its root. -/
theorem Shared.object_eq (h : Shared lineage p) {rv : ProductionPermissionSessionSnapshot}
    {root : String} (hid : p.snapshots id = some v) (hleads : LeadsTo lineage id root)
    (hroot : p.snapshots root = some rv) :
  v.object = rv.object
  := by
  obtain ⟨root', rv', hleads', hroot', hobj⟩ := h.root id v hid
  obtain rfl := hleads.unique hleads'
  rw [hroot] at hroot'
  rw [Option.some.inj hroot', hobj]

/-- Where the snapshots are shared a release drops the lineage and nothing else. -/
theorem Shared.releases {s : Observed} (h : Shared lineage s.policy) :
  Releases lineage s
  := by
  constructor
  · intro root id hleads
    cases hroot : s.policy.snapshots root with
    | none =>
      rw [releaseLineage, hroot]
      cases hid : s.policy.snapshots id with
      | none => rfl
      | some v =>
        obtain ⟨root', rv, hleads', hroot', -⟩ := h.root id v hid
        rw [← hleads.unique hleads', hroot] at hroot'
        contradiction
    | some rv =>
    rw [snapshots_releaseLineage hroot]
    cases hid : s.policy.snapshots id with
    | none => rfl
    | some v =>
    rw [Option.filter_eq_none_iff]
    intro value hvalue
    cases hvalue
    rw [h.object_eq hid hleads hroot]
    simp
  intro root other id hdepth hne hleads
  cases hroot : s.policy.snapshots root with
  | none => rw [releaseLineage, hroot]
  | some rv =>
  rw [snapshots_releaseLineage hroot]
  cases hid : s.policy.snapshots id with
  | none => rfl
  | some v =>
  obtain ⟨other', ov, hleads', hother, hobj⟩ := h.root id v hid
  obtain rfl := hleads.unique hleads'
  have hapart : v.object ≠ rv.object := by
    intro heq
    apply hne
    apply h.distinct other root ov rv hleads.depth_eq_zero hdepth hother hroot
    rw [hobj, heq]
  rw [Option.filter_eq_some_iff]
  use rfl
  apply decide_eq_true hapart

/-- What no snapshot is taken away from, or added to, is shared as before. -/
theorem Shared.congr (h : Shared lineage p) {q : ProductionPermissionSessionPolicy}
    (hsnaps : q.snapshots = p.snapshots) (hfrozen : q.frozen = p.frozen) :
  Shared lineage q
  := by
  constructor
  · rw [hsnaps]
    apply h.root
  · rw [hsnaps]
    apply h.distinct
  · rw [hsnaps, hfrozen]
    apply h.fresh

/-- A root that has the only snapshot of its lineage has a new one. -/
theorem Shared.refreeze (h : Shared lineage p) {q : ProductionPermissionSessionPolicy}
    (hdepth : (lineage id).depth = 0)
    (halone : ∀ other, LeadsTo lineage other id → other ≠ id → p.snapshots other = none)
    (hsnaps : q.snapshots = Function.update p.snapshots id (some v))
    (hobj : v.object = p.frozen) (hfrozen : q.frozen = p.frozen + 1) :
  Shared lineage q
  := by
  have hself : q.snapshots id = some v := by
    rw [hsnaps, update_self]
  have hother {other : String} (hne : other ≠ id) : q.snapshots other = p.snapshots other := by
    rw [hsnaps, update_of_ne hne]
  constructor
  · intro other w hw
    by_cases hne : other = id
    · subst hne
      rw [hself] at hw
      cases hw
      use other, v, .root hdepth, hself
    rw [hother hne] at hw
    obtain ⟨root, rv, hleads, hroot, hshared⟩ := h.root other w hw
    have hroot_ne : root ≠ id := by
      rintro rfl
      rw [halone other hleads hne] at hw
      contradiction
    use root, rv, hleads
    rw [hother hroot_ne]
    use hroot, hshared
  · -- a new snapshot is none of the old ones
    intro r r' w w' hr hr' hw hw' heq
    by_cases hne : r = id
    · by_cases hne' : r' = id
      · rw [hne, hne']
      rw [hne, hself] at hw
      cases hw
      rw [hother hne'] at hw'
      have hlt := h.fresh r' w' hw'
      rw [← heq, hobj] at hlt
      apply absurd hlt (lt_irrefl _)
    rw [hother hne] at hw
    by_cases hne' : r' = id
    · rw [hne', hself] at hw'
      cases hw'
      have hlt := h.fresh r w hw
      rw [heq, hobj] at hlt
      apply absurd hlt (lt_irrefl _)
    · rw [hother hne'] at hw'
      apply h.distinct r r' w w' hr hr' hw hw' heq
  intro other w hw
  rw [hfrozen]
  by_cases hne : other = id
  · rw [hne, hself] at hw
    cases hw
    rw [hobj]
    apply Nat.lt_succ_self
  · rw [hother hne] at hw
    apply Nat.lt_succ_of_lt (h.fresh other w hw)

/-- A child takes the snapshot of its parent. -/
theorem Shared.inherit (h : Shared lineage p) {parent : String} (hdepth : (lineage id).depth ≠ 0)
    (hparent : (lineage id).parentSessionId = some parent) (hne : parent ≠ "")
    (hnone : p.snapshots id = none) (hv : p.snapshots parent = some v) :
  Shared lineage (p.setSnapshot id v)
  := by
  have hself : (p.setSnapshot id v).snapshots id = some v := update_self ..
  have hother {other : String} (hne : other ≠ id) :
      (p.setSnapshot id v).snapshots other = p.snapshots other := update_of_ne hne ..
  have hroot {root : String} {rv : ProductionPermissionSessionSnapshot}
      (hrv : p.snapshots root = some rv) : (p.setSnapshot id v).snapshots root = some rv := by
    rw [hother, hrv]
    rintro rfl
    rw [hnone] at hrv
    contradiction
  constructor
  · intro other w hw
    by_cases heq : other = id
    · rw [heq, hself] at hw
      cases hw
      obtain ⟨root, rv, hleads, hrv, hshared⟩ := h.root parent v hv
      rw [heq]
      use root, rv, .child hdepth hparent hne hleads, hroot hrv
    · rw [hother heq] at hw
      obtain ⟨root, rv, hleads, hrv, hshared⟩ := h.root other w hw
      use root, rv, hleads, hroot hrv
  · intro r r' w w' hr hr' hw hw'
    rw [hother] at hw
    · rw [hother] at hw'
      · apply h.distinct r r' w w' hr hr' hw hw'
      · rintro rfl
        contradiction
    · rintro rfl
      contradiction
  intro other w hw
  by_cases heq : other = id
  · rw [heq, hself] at hw
    cases hw
    apply h.fresh parent v hv
  · rw [hother heq] at hw
    apply h.fresh other w hw

/-- What is left after the release of a session is shared as before. -/
theorem Shared.releaseLineage (h : Shared lineage p) (released : String) :
  Shared lineage (p.releaseLineage released)
  := by
  cases hfreed : p.snapshots released with
  | none =>
    rw [ProductionPermissionSessionPolicy.releaseLineage, hfreed]
    apply h
  | some rv =>
  have hleft {id : String} {v : ProductionPermissionSessionSnapshot} :
      (p.releaseLineage released).snapshots id = some v ↔
        p.snapshots id = some v ∧ v.object ≠ rv.object := by
    rw [snapshots_releaseLineage hfreed, Option.filter_eq_some_iff, decide_eq_true_eq]
  constructor
  · intro id v hid
    obtain ⟨hid, hne⟩ := hleft.mp hid
    obtain ⟨root, v', hleads, hroot, hobj⟩ := h.root id v hid
    use root, v', hleads
    rw [hleft, hobj]
    use ⟨hroot, hne⟩
  · intro r r' v v' hr hr' hv hv'
    apply h.distinct r r' v v' hr hr' (hleft.mp hv).1 (hleft.mp hv').1
  intro id v hid
  have hfrozen : (p.releaseLineage released).frozen = p.frozen := by
    rw [ProductionPermissionSessionPolicy.releaseLineage, hfreed]
  rw [hfrozen]
  apply h.fresh id v (hleft.mp hid).1

end Lineages

/-! ### Steps -/

variable {lineage : String → Lineage} {s t : Observed}

/-- An escalation of a session that has a snapshot in another mode. -/
theorem escalateSessionMode_eq {p : ProductionPermissionSessionPolicy} {id : String}
    {mode : PermissionSessionMode} {existing : ProductionPermissionSessionSnapshot}
    (h : p.snapshots id = some existing) (hmode : existing.mode ≠ mode) :
  p.escalateSessionMode id mode =
    { (p.noteEscalation id mode).setSnapshot id { existing with object := p.frozen, mode := mode }
        with frozen := p.frozen + 1 }
  := by
  rw [escalateSessionMode, h]
  exact if_neg hmode

theorem Shared.step (h : Shared lineage s.policy) {a : Action} (halone : Alone lineage s a)
    (ht : s.step lineage a = some t) :
  Shared lineage t.policy
  := by
  cases a with
  | configureSecurity skip | configureInteraction mode | configureMode mode =>
    cases ht
    exact h.congr rfl rfl
  | releaseLineage id =>
    cases ht
    apply h.releaseLineage
  | escalateSessionMode id mode =>
    cases ht
    change Shared lineage (s.policy.escalateSessionMode id mode)
    cases hid : s.policy.snapshots id with
    | none =>
      rw [escalateSessionMode, hid]
      exact h.congr rfl rfl
    | some existing =>
    by_cases hmode : existing.mode = mode
    · rw [escalateSessionMode, hid]
      simp only [if_pos hmode]
      exact h.congr rfl rfl
    rw [escalateSessionMode_eq hid hmode]
    have hlone := halone existing hid hmode
    obtain ⟨root, rv, hleads, hroot, -⟩ := h.root id existing hid
    -- the root has a snapshot, so it is the session itself
    have heq : root = id := by
      by_contra hne
      rw [hlone root root hleads (.root hleads.depth_eq_zero) hne] at hroot
      contradiction
    subst heq
    apply h.refreeze hleads.depth_eq_zero
    · intro other hother hne
      apply hlone root other hleads hother hne
    all_goals rfl
  | snapshotFor id =>
  cases ht
  cases hid : s.policy.snapshots id with
  | some existing =>
    simp only [Observed.snapshotFor, ProductionPermissionSessionPolicy.snapshotFor, hid]
    apply h
  | none =>
  simp only [Observed.snapshotFor, ProductionPermissionSessionPolicy.snapshotFor, hid]
  split_ifs with hdepth
  · apply h.refreeze hdepth
    · intro other hother hne
      cases hsnap : s.policy.snapshots other with
      | none => rfl
      | some v =>
        obtain ⟨root, rv, hleads, hroot, -⟩ := h.root other v hsnap
        rw [hother.unique hleads, hroot] at hid
        contradiction
    all_goals rfl
  cases hparent : s.policy.parentSnapshot (lineage id) with
  | none => apply h
  | some v =>
  rw [parentSnapshot] at hparent
  split at hparent
  · contradiction
  · rename_i parent hparentId
    split_ifs at hparent with hempty
    apply h.inherit hdepth hparentId hempty hid hparent

/-- Where a session is escalated beside another one of its lineage a release of the root drops only
one of the two. -/
theorem not_releases_of_not_alone (h : Shared lineage s.policy) {a : Action}
    (ht : s.step lineage a = some t) (hnot : ¬ Alone lineage s a) :
  ¬ Releases lineage t
  := by
  intro hrel
  cases a with
  | escalateSessionMode id mode =>
    apply hnot
    intro existing hid hmode root other hleads hleads' hne
    by_contra hsome
    obtain ⟨v, hv⟩ := Option.ne_none_iff_exists'.mp hsome
    cases ht
    obtain ⟨root', rv, hleads'', hroot, hobj⟩ := h.root id existing hid
    obtain rfl := hleads.unique hleads''
    have hsnaps : (s.policy.escalateSessionMode id mode).snapshots =
        Function.update s.policy.snapshots id
          (some { existing with object := s.policy.frozen, mode := mode }) := by
      rw [escalateSessionMode_eq hid hmode]
      rfl
    by_cases hself : id = root
    · -- the root has the new snapshot, and the other one the old
      subst hself
      have hnew : (s.policy.escalateSessionMode id mode).snapshots id =
          some { existing with object := s.policy.frozen, mode := mode } := by
        rw [hsnaps, update_self]
      have hdrop := hrel.dropped id other hleads'
      rw [snapshots_releaseLineage hnew, hsnaps, update_of_ne hne, hv,
        Option.filter_eq_none_iff] at hdrop
      apply hdrop v rfl
      apply decide_eq_true
      apply Nat.ne_of_lt (h.fresh other v hv)
    -- the session has the new snapshot, and the root the old
    have hold : (s.policy.escalateSessionMode id mode).snapshots root = some rv := by
      rw [hsnaps, update_of_ne (Ne.symm hself), hroot]
    have hdrop := hrel.dropped root id hleads
    rw [snapshots_releaseLineage hold, hsnaps, update_self, Option.filter_eq_none_iff] at hdrop
    apply hdrop _ rfl
    apply decide_eq_true
    apply Nat.ne_of_gt (h.fresh root rv hroot)
  | configureSecurity | configureInteraction | configureMode | snapshotFor | releaseLineage =>
    apply hnot True.intro

/-! ### Runs -/

/-- Where the release is right in all states of a run no session is escalated beside another one of
its lineage. -/
theorem guarded_of_releases (h : Shared lineage s.policy) (as : List Action)
    (hrel : ∀ past t, past <+: as → run (Observed.step lineage) s past = some t →
      Releases lineage t) :
  Guarded (Observed.step lineage) (Alone lineage) s as
  := by
  induction as generalizing s with
  | nil => exact True.intro
  | cons a as ih =>
  obtain ⟨t, ht⟩ := step_isSome lineage s a
  have hrun {past : List Action} :
      run (Observed.step lineage) s (a :: past) = run (Observed.step lineage) t past := by
    rw [run, ht]
  have halone : Alone lineage s a := by
    by_contra hnot
    apply not_releases_of_not_alone h ht hnot
    apply hrel [a] t (List.prefix_append [a] as)
    rw [hrun]
    rfl
  use halone
  rw [ht]
  apply ih (h.step halone ht)
  intro past u hpast hu
  apply hrel (a :: past) u
  · apply List.cons_prefix_cons.mpr ⟨rfl, hpast⟩
  · rw [hrun, hu]

/-- In every run, in each state the release of a root drops the snapshots of its lineage and nothing
else, exactly where no session is escalated to another mode while another one of its lineage has a
snapshot. -/
theorem releases_iff (lineage : String → Lineage) (as : List Action) :
  (∀ past s, past <+: as → run (Observed.step lineage) Observed.initial past = some s →
      Releases lineage s) ↔
    Guarded (Observed.step lineage) (Alone lineage) Observed.initial as
  := by
  constructor
  · apply guarded_of_releases Shared.initial
  rintro h past s ⟨rest, rfl⟩ hrun
  have hok : Guarded (Observed.step lineage) (Alone lineage) Observed.initial past := by
    rw [guarded_iff] at h ⊢
    intro before a after t hpast ht
    apply h before a (after ++ rest) t _ ht
    rw [hpast, List.append_assoc, List.cons_append]
  have hshared : Shared lineage s.policy := by
    apply hok.invariant (I := fun s => Shared lineage s.policy) _ Shared.initial hrun
    intro s a t hs halone ht
    apply Shared.step hs halone ht
  apply hshared.releases

/-- A root and a child of it. -/
def familyLineage (id : String) : Lineage :=
  if id = "child" then ⟨1, some "root"⟩ else ⟨0, none⟩

/-- The root of a child that has its snapshot is granted full access, and released. -/
theorem not_releases :
  ¬ ∀ lineage as s, run (Observed.step lineage) Observed.initial as = some s → Releases lineage s
  := by
  intro h
  have hrel := h familyLineage
    [.snapshotFor "root", .snapshotFor "child", .escalateSessionMode "root" .full] _ rfl
  have hleads : LeadsTo familyLineage "child" "root" := by
    apply LeadsTo.child
    · decide
    · rfl
    · decide
    · apply LeadsTo.root rfl
  have hdrop := hrel.dropped "root" "child" hleads
  contradiction

end Permission.SessionPolicy
