import VolundCode.Permission.Manager

/-!
# The permission policy of sessions

`ProductionPermissionSessionPolicy` decides with which permission mode a session runs. A
top-level session freezes a snapshot of the policy when it is first asked for, a child session
shares the snapshot of its parent, and a session that the user granted full access is escalated,
in its snapshot and for the snapshots it takes later. Switching the mode forgets the escalations,
but it leaves the snapshots that they changed.

A top-level session runs in full mode only by the mode it was frozen under or by an escalation
since the last switch, and a child never in a more permissive mode than its parent had, as long
as the mode is not switched over the snapshot of an escalated session and no child is escalated
past its parent. `cancels_iff` says so for all runs, and that each breach of this shows.
-/

namespace Permission

open Run List Function Option

/-! ### Snapshots -/

/-- The tiers in their order: a mode permits all that the modes before it permit. -/
def PermissionSessionMode.tier : PermissionSessionMode → ℕ
  | .ask => 0
  | .auto => 1
  | .full => 2

inductive PermissionInteractionMode where
  | none
  | line
  | tui
  deriving DecidableEq, Repr

/-- A frozen snapshot. Objects are compared by identity: snapshots that are the same object
have the same `object`. -/
structure ProductionPermissionSessionSnapshot where
  object : ℕ
  dangerouslySkip : Bool
  interactionMode : PermissionInteractionMode
  mode : PermissionSessionMode
  deriving DecidableEq, Repr

/-- The lineage of a session, which never changes. -/
structure Lineage where
  depth : ℕ
  parentSessionId : Option String
  deriving DecidableEq, Repr

/-- The error for a child whose parent has no snapshot. -/
def permissionSessionInvariantError (parentSessionId : String) : VolundError where
  code := "permission_parent_snapshot_missing"
  message := "Permission policy invariant failed: parent session snapshot not found (" ++
    parentSessionId ++ ")"

/-! ### The policy -/

/-- The policy, with the number of snapshots frozen so far. -/
structure ProductionPermissionSessionPolicy where
  nextDangerouslySkip : Bool
  nextInteractionMode : PermissionInteractionMode
  nextMode : PermissionSessionMode
  sessionModeEscalations : String → Option PermissionSessionMode
  snapshots : String → Option ProductionPermissionSessionSnapshot
  frozen : ℕ

namespace ProductionPermissionSessionPolicy

def initial : ProductionPermissionSessionPolicy where
  nextDangerouslySkip := false
  nextInteractionMode := .none
  nextMode := .ask
  sessionModeEscalations _ := none
  snapshots _ := none
  frozen := 0

def configureSecurity (p : ProductionPermissionSessionPolicy) (skipPermissions : Bool) :
    ProductionPermissionSessionPolicy :=
  { p with nextDangerouslySkip := skipPermissions }

def configureInteraction (p : ProductionPermissionSessionPolicy)
    (mode : PermissionInteractionMode) : ProductionPermissionSessionPolicy :=
  { p with nextInteractionMode := mode }

def configureMode (p : ProductionPermissionSessionPolicy) (mode : PermissionSessionMode) :
    ProductionPermissionSessionPolicy :=
  { p with nextMode := mode, sessionModeEscalations := fun _ => none }

/-- The policy with another snapshot for a session. -/
def setSnapshot (p : ProductionPermissionSessionPolicy) (sessionId : String)
    (snapshot : ProductionPermissionSessionSnapshot) : ProductionPermissionSessionPolicy :=
  { p with snapshots := Function.update p.snapshots sessionId (some snapshot) }

/-- The snapshot that is frozen next, in a mode. -/
def freeze (p : ProductionPermissionSessionPolicy) (mode : PermissionSessionMode) :
    ProductionPermissionSessionSnapshot where
  object := p.frozen
  dangerouslySkip := p.nextDangerouslySkip
  interactionMode := p.nextInteractionMode
  mode := mode

/-- The policy with the escalation of a session noted. -/
def noteEscalation (p : ProductionPermissionSessionPolicy) (sessionId : String)
    (mode : PermissionSessionMode) : ProductionPermissionSessionPolicy :=
  { p with
    sessionModeEscalations := Function.update p.sessionModeEscalations sessionId (some mode) }

def escalateSessionMode (p : ProductionPermissionSessionPolicy) (sessionId : String)
    (mode : PermissionSessionMode) : ProductionPermissionSessionPolicy :=
  match p.snapshots sessionId with
  | none => p.noteEscalation sessionId mode
  | some existing =>
    if existing.mode = mode then p.noteEscalation sessionId mode
    else
      { (p.noteEscalation sessionId mode).setSnapshot sessionId
          { existing with object := p.frozen, mode := mode } with
        frozen := p.frozen + 1 }

/-- The snapshot of the parent session. An empty id names no parent. -/
def parentSnapshot (p : ProductionPermissionSessionPolicy) (lineage : Lineage) :
    Option ProductionPermissionSessionSnapshot :=
  match lineage.parentSessionId with
  | none => none
  | some parentSessionId => if parentSessionId = "" then none else p.snapshots parentSessionId

def snapshotFor (p : ProductionPermissionSessionPolicy) (id : String) (lineage : Lineage) :
    ProductionPermissionSessionPolicy × Except VolundError ProductionPermissionSessionSnapshot :=
  match p.snapshots id with
  | some existing => (p, .ok existing)
  | none =>
    if lineage.depth = 0 then
      let snapshot := p.freeze ((p.sessionModeEscalations id).getD p.nextMode)
      ({ p.setSnapshot id snapshot with frozen := p.frozen + 1 }, .ok snapshot)
    else
      match p.parentSnapshot lineage with
      | none =>
        (p, .error (permissionSessionInvariantError (lineage.parentSessionId.getD "<missing>")))
      | some snapshot => (p.setSnapshot id snapshot, .ok snapshot)

def snapshotForSession (p : ProductionPermissionSessionPolicy) (sessionId : String) :
    Option ProductionPermissionSessionSnapshot :=
  p.snapshots sessionId

def releaseLineage (p : ProductionPermissionSessionPolicy) (sessionId : String) :
    ProductionPermissionSessionPolicy :=
  match p.snapshots sessionId with
  | none => p
  | some snapshot =>
    { p with
      snapshots := fun candidate =>
        (p.snapshots candidate).filter fun value => value.object ≠ snapshot.object }

end ProductionPermissionSessionPolicy

/-! ### Runs -/

namespace SessionPolicy

open ProductionPermissionSessionPolicy

/-- A call of a method of the policy. -/
inductive Action where
  | configureSecurity (skipPermissions : Bool)
  | configureInteraction (mode : PermissionInteractionMode)
  | configureMode (mode : PermissionSessionMode)
  | escalateSessionMode (sessionId : String) (mode : PermissionSessionMode)
  | snapshotFor (id : String)
  | releaseLineage (sessionId : String)
  deriving DecidableEq, Repr

/-- The policy, and what is observed beside it: the mode under which the snapshot of a session
was taken, which is the configured mode for a top-level session and the mode of the parent for a
child. -/
structure Observed where
  policy : ProductionPermissionSessionPolicy
  taken : String → PermissionSessionMode

def Observed.initial : Observed where
  policy := ProductionPermissionSessionPolicy.initial
  taken _ := .ask

variable (lineage : String → Lineage)

/-- The mode under which the session would take a snapshot now. -/
def Observed.taking (s : Observed) (id : String) : PermissionSessionMode :=
  if (lineage id).depth = 0 then s.policy.nextMode
  else ((s.policy.parentSnapshot (lineage id)).map (·.mode)).getD .ask

/-- A session asks for its snapshot. -/
def Observed.snapshotFor (s : Observed) (id : String) :
    Observed × Except VolundError ProductionPermissionSessionSnapshot :=
  let called := s.policy.snapshotFor id (lineage id)
  match s.policy.snapshots id with
  | some _ => (⟨called.1, s.taken⟩, called.2)
  | none => (⟨called.1, Function.update s.taken id (s.taking lineage id)⟩, called.2)

def Observed.step (s : Observed) : Action → Option Observed
  | .configureSecurity skip => some ⟨s.policy.configureSecurity skip, s.taken⟩
  | .configureInteraction mode => some ⟨s.policy.configureInteraction mode, s.taken⟩
  | .configureMode mode => some ⟨s.policy.configureMode mode, s.taken⟩
  | .escalateSessionMode id mode => some ⟨s.policy.escalateSessionMode id mode, s.taken⟩
  | .snapshotFor id => some (s.snapshotFor lineage id).1
  | .releaseLineage id => some ⟨s.policy.releaseLineage id, s.taken⟩

/-- The session was escalated, and the mode was not switched since. -/
def EscalatedSince (past : List Action) (id : String) : Prop :=
  ∃ before mode after, past = before ++ .escalateSessionMode id mode :: after ∧
    ∀ switched, .configureMode switched ∉ after

/-- Mode switches cancel escalations: a top-level session in full mode was frozen under full mode
or escalated since the last switch, and a child is in no more permissive mode than its parent was
when the child was created. -/
structure Cancels (past : List Action) (s : Observed) : Prop where
  top : ∀ id t snapshot, (lineage id).depth = 0 → s.snapshotFor lineage id = (t, .ok snapshot) →
    snapshot.mode = .full → t.taken id = .full ∨ EscalatedSince past id
  child : ∀ id t snapshot, (lineage id).depth ≠ 0 →
    s.snapshotFor lineage id = (t, .ok snapshot) → snapshot.mode.tier ≤ (t.taken id).tier

/-- The call leaves no escalation behind: the mode is not switched while a top-level session that
was escalated to full mode has a snapshot taken under another mode, and a child with a snapshot is
escalated to no more permissive mode than its parent had. -/
def Accounted (s : Observed) : Action → Prop
  | .configureMode _ => ∀ id, (lineage id).depth = 0 →
      s.policy.sessionModeEscalations id = some .full → (s.policy.snapshots id).isSome →
        s.taken id = .full
  | .escalateSessionMode id mode => (lineage id).depth ≠ 0 → (s.policy.snapshots id).isSome →
      mode.tier ≤ (s.taken id).tier
  | _ => True

/-! ### The modes of the snapshots -/

/-- The mode of the snapshot of a session, if it has one. -/
def modeOf (p : ProductionPermissionSessionPolicy) (id : String) : Option PermissionSessionMode :=
  (p.snapshots id).map (·.mode)

variable {id : String}

theorem modeOf_eq_some {p : ProductionPermissionSessionPolicy}
    {snapshot : ProductionPermissionSessionSnapshot} (h : p.snapshots id = some snapshot) :
  modeOf p id = some snapshot.mode
  := by
  rw [modeOf, h, map_some]

theorem modeOf_setSnapshot (p : ProductionPermissionSessionPolicy) (id : String)
    (snapshot : ProductionPermissionSessionSnapshot) :
  modeOf (p.setSnapshot id snapshot) = Function.update (modeOf p) id (some snapshot.mode)
  := by
  funext id'
  by_cases hid : id' = id
  · subst hid
    simp [modeOf, setSnapshot]
  · simp [modeOf, setSnapshot, hid]

/-- An escalation notes the mode, and gives it to the snapshot of the session. -/
theorem escalateSessionMode_spec (p : ProductionPermissionSessionPolicy) (id : String)
    (mode : PermissionSessionMode) :
  (p.escalateSessionMode id mode).sessionModeEscalations =
      Function.update p.sessionModeEscalations id (some mode) ∧
    modeOf (p.escalateSessionMode id mode) =
      Function.update (modeOf p) id ((modeOf p id).map fun _ => mode)
  := by
  have hsame : Function.update (modeOf p) id (modeOf p id) = modeOf p := update_eq_self id _
  rw [escalateSessionMode]
  cases h : p.snapshots id with
  | none =>
    have hnone : modeOf p id = none := by rw [modeOf, h, map_none]
    rw [hnone] at hsame ⊢
    exact ⟨rfl, hsame.symm⟩
  | some existing =>
  rw [modeOf_eq_some h] at hsame ⊢
  rw [map_some]
  by_cases hmode : existing.mode = mode
  · simp only [if_pos hmode]
    rw [hmode] at hsame
    exact ⟨rfl, hsame.symm⟩
  · simp only [if_neg hmode]
    use rfl
    apply modeOf_setSnapshot (p.noteEscalation id mode)

/-- A release changes no mode of a snapshot that stays. -/
theorem modeOf_releaseLineage {p : ProductionPermissionSessionPolicy} {released : String}
    {mode : PermissionSessionMode} (h : modeOf (p.releaseLineage released) id = some mode) :
  modeOf p id = some mode
  := by
  rw [releaseLineage] at h
  cases hsnap : p.snapshots released with
  | none =>
    simp only [hsnap] at h
    apply h
  | some snapshot =>
    simp only [hsnap, modeOf, map_eq_some_iff, filter_eq_some_iff] at h
    obtain ⟨value, ⟨hvalue, -⟩, rfl⟩ := h
    apply modeOf_eq_some hvalue

theorem releaseLineage_escalations (p : ProductionPermissionSessionPolicy) (released : String) :
  (p.releaseLineage released).sessionModeEscalations = p.sessionModeEscalations
  := by
  rw [releaseLineage]
  cases p.snapshots released with
  | none | some snapshot => rfl

/-- A session that asks for its snapshot has one already, gets none, or gets one in the mode it
was escalated to, or else in the mode that it takes it under. -/
theorem snapshotFor_spec (s : Observed) (id : String) :
  let t := (s.snapshotFor lineage id).1
  t.policy.sessionModeEscalations = s.policy.sessionModeEscalations ∧
    ((modeOf t.policy = modeOf s.policy ∧
        ∀ id', (modeOf s.policy id').isSome → t.taken id' = s.taken id') ∨
      ∃ mode, modeOf s.policy id = none ∧
        modeOf t.policy = Function.update (modeOf s.policy) id (some mode) ∧
        t.taken = Function.update s.taken id (s.taking lineage id) ∧
        (mode = s.taking lineage id ∧
            ((lineage id).depth = 0 → s.policy.sessionModeEscalations id = none) ∨
          (lineage id).depth = 0 ∧ s.policy.sessionModeEscalations id = some mode))
  := by
  intro t
  cases h : s.policy.snapshots id with
  | some existing =>
    have ht : t = s := by
      simp only [t, Observed.snapshotFor, ProductionPermissionSessionPolicy.snapshotFor, h]
    rw [ht]
    use rfl
    left
    exact ⟨rfl, fun _ _ => rfl⟩
  | none =>
  have hnone : modeOf s.policy id = none := by rw [modeOf, h, map_none]
  have htaken : t.taken = Function.update s.taken id (s.taking lineage id) := by
    simp only [t, Observed.snapshotFor, h]
  by_cases hdepth : (lineage id).depth = 0
  · have hpol : t.policy = { s.policy.setSnapshot id
        (s.policy.freeze ((s.policy.sessionModeEscalations id).getD s.policy.nextMode)) with
        frozen := s.policy.frozen + 1 } := by
      simp only [t, Observed.snapshotFor, ProductionPermissionSessionPolicy.snapshotFor, h,
        if_pos hdepth]
    rw [hpol]
    use rfl
    right
    use (s.policy.sessionModeEscalations id).getD s.policy.nextMode, hnone,
      modeOf_setSnapshot s.policy id _, htaken
    cases hesc : s.policy.sessionModeEscalations id with
    | none =>
      left
      rw [Observed.taking, if_pos hdepth, getD_none]
      exact ⟨rfl, fun _ => rfl⟩
    | some mode =>
      right
      exact ⟨hdepth, rfl⟩
  cases hparent : s.policy.parentSnapshot (lineage id) with
  | none =>
    have hpol : t.policy = s.policy := by
      simp only [t, Observed.snapshotFor, ProductionPermissionSessionPolicy.snapshotFor,
        h, if_neg hdepth, hparent]
    rw [hpol]
    use rfl
    left
    use rfl
    intro id' hid'
    rw [htaken, update_of_ne]
    rintro rfl
    rw [hnone] at hid'
    cases hid'
  | some snapshot =>
  have hpol : t.policy = s.policy.setSnapshot id snapshot := by
    simp only [t, Observed.snapshotFor, ProductionPermissionSessionPolicy.snapshotFor,
      h, if_neg hdepth, hparent]
  rw [hpol]
  use rfl
  right
  use snapshot.mode, hnone, modeOf_setSnapshot s.policy id _, htaken
  left
  rw [Observed.taking, if_neg hdepth, hparent, map_some, getD_some]
  exact ⟨rfl, fun htop => absurd htop hdepth⟩

variable {s t : Observed}

/-- The snapshot that a session gets is its snapshot from then on. -/
theorem modeOf_snapshotFor
    {snapshot : ProductionPermissionSessionSnapshot}
    (h : s.snapshotFor lineage id = (t, .ok snapshot)) :
  modeOf t.policy id = some snapshot.mode
  := by
  have hsome : t.policy.snapshots id = some snapshot := by
    rw [Observed.snapshotFor, ProductionPermissionSessionPolicy.snapshotFor] at h
    cases hid : s.policy.snapshots id with
    | some existing =>
      simp only [hid, Prod.mk.injEq, Except.ok.injEq] at h
      obtain ⟨rfl, rfl⟩ := h
      apply hid
    | none =>
    simp only [hid] at h
    split_ifs at h with hdepth
    · simp only [Prod.mk.injEq, Except.ok.injEq] at h
      obtain ⟨rfl, rfl⟩ := h
      apply update_self
    split at h
    · cases (Prod.mk.inj h).2
    · simp only [Prod.mk.injEq, Except.ok.injEq] at h
      obtain ⟨rfl, rfl⟩ := h
      apply update_self
  apply modeOf_eq_some hsome

/-! ### Escalations of the run -/

variable {lineage}

theorem EscalatedSince.escalate (past : List Action) (id : String) (mode : PermissionSessionMode) :
  EscalatedSince (past ++ [.escalateSessionMode id mode]) id
  := ⟨past, mode, [], rfl, nofun⟩

variable {a : Action} {past : List Action}

/-- An escalation outlasts every call but a switch of the mode. -/
theorem EscalatedSince.snoc
    (h : EscalatedSince past id) (ha : ∀ mode, a ≠ .configureMode mode) :
  EscalatedSince (past ++ [a]) id
  := by
  obtain ⟨before, mode, after, rfl, hafter⟩ := h
  use before, mode, after ++ [a], by simp
  intro switched hmem
  rcases mem_append.mp hmem with hmem | hmem
  · apply hafter switched hmem
  · apply ha switched (mem_singleton.mp hmem).symm

/-- Right after a switch of the mode, no session was escalated since. -/
theorem not_escalatedSince (past : List Action) (id : String) (mode : PermissionSessionMode) :
  ¬EscalatedSince (past ++ [.configureMode mode]) id
  := by
  rintro ⟨before, escalated, after, heq, hafter⟩
  rcases eq_nil_or_concat after with rfl | ⟨after, last, rfl⟩
  · have hlast := append_inj_right' heq rfl
    cases hlast
  rw [concat_eq_append, ← cons_append, ← append_assoc] at heq
  have hlast := append_inj_right' heq rfl
  apply hafter mode
  rw [concat_eq_append, ← hlast]
  simp

/-! ### The invariant -/

/-- A top-level snapshot in full mode was taken under it, or its session is escalated; a session
that is escalated was escalated since the last switch; and a child's snapshot is in no more
permissive mode than the one it was taken under. -/
structure Frozen (lineage : String → Lineage) (past : List Action) (s : Observed) : Prop where
  top : ∀ id, (lineage id).depth = 0 → modeOf s.policy id = some .full →
    s.taken id = .full ∨ s.policy.sessionModeEscalations id = some .full
  escalated : ∀ id mode, s.policy.sessionModeEscalations id = some mode → EscalatedSince past id
  child : ∀ id mode, (lineage id).depth ≠ 0 → modeOf s.policy id = some mode →
    mode.tier ≤ (s.taken id).tier

/-- A call that is no switch and changes neither escalations nor modes keeps the invariant. -/
theorem Frozen.frame
    (h : Frozen lineage past s) (ha : ∀ mode, a ≠ .configureMode mode)
    (hescs : t.policy.sessionModeEscalations = s.policy.sessionModeEscalations)
    (hmodes : ∀ id mode, modeOf t.policy id = some mode →
      modeOf s.policy id = some mode ∧ t.taken id = s.taken id) :
  Frozen lineage (past ++ [a]) t
  := by
  constructor
  · intro id hdepth hmode
    obtain ⟨hmode, htaken⟩ := hmodes id _ hmode
    rw [htaken, hescs]
    apply h.top id hdepth hmode
  · intro id mode hmode
    rw [hescs] at hmode
    apply (h.escalated id mode hmode).snoc ha
  intro id mode hdepth hmode
  obtain ⟨hmode, htaken⟩ := hmodes id _ hmode
  rw [htaken]
  apply h.child id mode hdepth hmode

/-- A session that asks for its snapshot keeps the invariant. -/
theorem Frozen.snapshotFor (h : Frozen lineage past s) (id : String) :
  Frozen lineage past (s.snapshotFor lineage id).1
  := by
  obtain ⟨hescs, ⟨hmodes, htaken⟩ | ⟨mode, hnone, hmodes, htaken, hmode⟩⟩ :=
    snapshotFor_spec lineage s id
  · constructor
    · intro id' hdepth hfull
      rw [hmodes] at hfull
      rw [hescs, htaken id' (by rw [hfull, isSome_some])]
      apply h.top id' hdepth hfull
    · rw [hescs]
      apply h.escalated
    intro id' mode' hdepth hmode'
    rw [hmodes] at hmode'
    rw [htaken id' (by rw [hmode', isSome_some])]
    apply h.child id' mode' hdepth hmode'
  constructor
  · intro id' hdepth hfull
    rw [hmodes] at hfull
    rw [hescs, htaken]
    by_cases hid : id' = id
    · subst hid
      rw [update_self] at hfull ⊢
      cases hfull
      rcases hmode with ⟨hmode, -⟩ | ⟨-, hmode⟩
      · left
        apply hmode.symm
      · right
        apply hmode
    · rw [update_of_ne hid] at hfull ⊢
      apply h.top id' hdepth hfull
  · rw [hescs]
    apply h.escalated
  intro id' mode' hdepth hmode'
  rw [hmodes] at hmode'
  rw [htaken]
  by_cases hid : id' = id
  · subst hid
    rw [update_self] at hmode' ⊢
    cases hmode'
    rcases hmode with ⟨hmode, -⟩ | ⟨htop, -⟩
    · rw [hmode]
    · apply absurd htop hdepth
  · rw [update_of_ne hid] at hmode' ⊢
    apply h.child id' mode' hdepth hmode'

/-- An accounted call keeps the invariant. -/
theorem Frozen.step (h : Frozen lineage past s)
    (hok : Accounted lineage s a) (ht : s.step lineage a = some t) :
  Frozen lineage (past ++ [a]) t
  := by
  cases a with
  | configureSecurity skip | configureInteraction mode =>
    cases ht
    exact h.frame nofun rfl fun _ _ hmode => ⟨hmode, rfl⟩
  | configureMode mode =>
    cases ht
    constructor
    · intro id hdepth hfull
      left
      rcases h.top id hdepth hfull with htaken | hesc
      · apply htaken
      · apply hok id hdepth hesc
        rw [← isSome_map]
        exact isSome_of_eq_some hfull
    · nofun
    · apply h.child
  | escalateSessionMode id mode =>
    cases ht
    obtain ⟨hescs, hmodes⟩ := escalateSessionMode_spec s.policy id mode
    constructor
    · intro id' hdepth hfull
      simp only [hescs]
      rw [hmodes] at hfull
      by_cases hid : id' = id
      · subst hid
        rw [update_self] at hfull ⊢
        obtain ⟨_, -, rfl⟩ := map_eq_some_iff.mp hfull
        right
        rfl
      · rw [update_of_ne hid] at hfull ⊢
        apply h.top id' hdepth hfull
    · intro id' mode' hmode'
      simp only [hescs] at hmode'
      by_cases hid : id' = id
      · subst hid
        apply EscalatedSince.escalate
      · rw [update_of_ne hid] at hmode'
        exact (h.escalated id' mode' hmode').snoc nofun
    intro id' mode' hdepth hmode'
    rw [hmodes] at hmode'
    by_cases hid : id' = id
    · subst hid
      rw [update_self] at hmode'
      obtain ⟨old, hold, rfl⟩ := map_eq_some_iff.mp hmode'
      apply hok hdepth
      rw [← isSome_map]
      exact isSome_of_eq_some hold
    · rw [update_of_ne hid] at hmode'
      apply h.child id' mode' hdepth hmode'
  | snapshotFor id =>
    cases ht
    obtain ⟨htop, hesc, hchild⟩ := h.snapshotFor id
    exact ⟨htop, fun id' mode hmode => (hesc id' mode hmode).snoc nofun, hchild⟩
  | releaseLineage id =>
    cases ht
    exact h.frame nofun (releaseLineage_escalations s.policy id)
      fun _ _ hmode => ⟨modeOf_releaseLineage hmode, rfl⟩

theorem Frozen.initial : Frozen lineage [] Observed.initial where
  top _ _ h := by cases h
  escalated _ _ h := by cases h
  child _ _ _ h := by cases h

/-- The invariant gives what is promised of the snapshots. -/
theorem Frozen.cancels (h : Frozen lineage past s) :
  Cancels lineage past s
  := by
  constructor
  · intro id t snapshot hdepth hsnap hfull
    have ht := h.snapshotFor id
    have hmode := modeOf_snapshotFor lineage hsnap
    rw [hsnap] at ht
    rw [hfull] at hmode
    rcases ht.top id hdepth hmode with htaken | hesc
    · left
      apply htaken
    · right
      apply ht.escalated id _ hesc
  intro id t snapshot hdepth hsnap
  have ht := h.snapshotFor id
  rw [hsnap] at ht
  apply ht.child id _ hdepth (modeOf_snapshotFor lineage hsnap)

/-! ### Calls that are not accounted -/

/-- The snapshot of an escalated top-level session has the mode it was escalated to. -/
def Escalated (lineage : String → Lineage) (s : Observed) : Prop :=
  ∀ id mode, (lineage id).depth = 0 → s.policy.sessionModeEscalations id = some mode →
    (modeOf s.policy id).isSome → modeOf s.policy id = some mode

/-- Every call keeps the escalations and the snapshots together. -/
theorem Escalated.step (h : Escalated lineage s) (ht : s.step lineage a = some t) :
  Escalated lineage t
  := by
  cases a with
  | configureSecurity skip | configureInteraction mode =>
    cases ht
    apply h
  | configureMode mode =>
    cases ht
    intro id mode' _ hmode'
    cases hmode'
  | escalateSessionMode id mode =>
    cases ht
    obtain ⟨hescs, hmodes⟩ := escalateSessionMode_spec s.policy id mode
    intro id' mode' hdepth hmode' hsome
    simp only [hescs, hmodes] at hmode' hsome ⊢
    by_cases hid : id' = id
    · subst hid
      rw [update_self] at hmode' hsome ⊢
      obtain ⟨old, hold⟩ := isSome_iff_exists.mp (isSome_map.symm.trans hsome)
      rw [hold, map_some, hmode']
    · rw [update_of_ne hid] at hmode' hsome ⊢
      apply h id' mode' hdepth hmode' hsome
  | snapshotFor id =>
    cases ht
    obtain ⟨hescs, ⟨hmodes, -⟩ | ⟨mode, hnone, hmodes, -, hmode⟩⟩ := snapshotFor_spec lineage s id
    · intro id' mode' hdepth hmode' hsome
      rw [hescs] at hmode'
      rw [hmodes] at hsome ⊢
      apply h id' mode' hdepth hmode' hsome
    intro id' mode' hdepth hmode' hsome
    rw [hescs] at hmode'
    rw [hmodes] at hsome ⊢
    by_cases hid : id' = id
    · subst hid
      rw [update_self]
      rcases hmode with ⟨-, hfree⟩ | ⟨-, hmode⟩
      · rw [hfree hdepth] at hmode'
        cases hmode'
      · rw [← hmode, hmode']
    · rw [update_of_ne hid] at hsome ⊢
      apply h id' mode' hdepth hmode' hsome
  | releaseLineage id =>
  cases ht
  intro id' mode' hdepth hmode' hsome
  obtain ⟨old, hold⟩ := isSome_iff_exists.mp hsome
  have hkept := modeOf_releaseLineage hold
  simp only [releaseLineage_escalations] at hmode'
  have hsame := h id' mode' hdepth hmode' (by rw [hkept, isSome_some])
  simp only [hold]
  rw [← hsame, hkept]

variable (lineage) in
/-- A session that has a snapshot gets it. -/
theorem snapshotFor_of_isSome
    (h : (s.policy.snapshots id).isSome) :
  ∃ snapshot, s.snapshotFor lineage id = (s, .ok snapshot) ∧ modeOf s.policy id = some snapshot.mode
  := by
  obtain ⟨snapshot, hsnap⟩ := isSome_iff_exists.mp h
  use snapshot
  constructor
  · simp only [Observed.snapshotFor, ProductionPermissionSessionPolicy.snapshotFor, hsnap]
  · apply modeOf_eq_some hsnap

/-- A call that is not accounted breaks what is promised. -/
theorem not_cancels_of_not_accounted
    (hs : Escalated lineage s) (ht : s.step lineage a = some t) (h : ¬Accounted lineage s a) :
  ¬Cancels lineage (past ++ [a]) t
  := by
  intro hcancels
  cases a with
  | configureMode mode =>
    cases ht
    apply h
    intro id hdepth hesc hsome
    obtain ⟨snapshot, hsnap, hmode⟩ := snapshotFor_of_isSome lineage
      (s := ⟨s.policy.configureMode mode, s.taken⟩) hsome
    have hfull : modeOf s.policy id = some .full := by
      apply hs id .full hdepth hesc
      rw [modeOf, isSome_map]
      exact hsome
    rcases hcancels.top id _ snapshot hdepth hsnap
      (Option.some.inj (hmode.symm.trans hfull)) with htaken | hsince
    · apply htaken
    · apply absurd hsince (not_escalatedSince past id mode)
  | escalateSessionMode id mode =>
    cases ht
    apply h
    intro hdepth hsome
    obtain ⟨-, hmodes⟩ := escalateSessionMode_spec s.policy id mode
    have hmode : modeOf (s.policy.escalateSessionMode id mode) id = some mode := by
      obtain ⟨old, hold⟩ := isSome_iff_exists.mp hsome
      rw [hmodes, update_self, modeOf_eq_some hold, map_some]
    have hsome' : ((s.policy.escalateSessionMode id mode).snapshots id).isSome := by
      rw [← isSome_map (f := (·.mode))]
      exact isSome_of_eq_some hmode
    obtain ⟨snapshot, hsnap, hmode'⟩ := snapshotFor_of_isSome lineage
      (s := ⟨s.policy.escalateSessionMode id mode, s.taken⟩) hsome'
    have hle := hcancels.child id _ snapshot hdepth hsnap
    rw [Option.some.inj (hmode'.symm.trans hmode)] at hle
    apply hle
  | configureSecurity | configureInteraction | snapshotFor | releaseLineage =>
    apply h True.intro

variable (lineage)

/-- Every call can happen. -/
theorem step_isSome (s : Observed) (a : Action) :
  ∃ t, s.step lineage a = some t
  := by
  cases a <;> exact ⟨_, rfl⟩

/-- Mode switches cancel escalations, and children stay within their parents, in every state of a
run exactly when each of its calls is accounted. -/
theorem cancels_iff (as : List Action) :
  (∀ past s, past <+: as → run (Observed.step lineage) Observed.initial past = some s →
      Cancels lineage past s) ↔
    Guarded (Observed.step lineage) (Accounted lineage) Observed.initial as
  := by
  rw [guarded_iff]
  constructor
  · intro h past a rest s has hrun
    by_contra hnot
    obtain ⟨t, ht⟩ := step_isSome lineage s a
    have hesc : Escalated lineage s := by
      apply run_invariant (I := Escalated lineage) (fun _ _ _ hs ht => hs.step ht) _ hrun
      intro _ _ _ hmode
      cases hmode
    apply not_cancels_of_not_accounted hesc ht hnot
    apply h (past ++ [a]) t
    · use rest
      simp [has]
    · simp [run_append, hrun, run, ht]
  rintro h past s ⟨rest, rfl⟩ hrun
  have hok : Guarded (Observed.step lineage) (Accounted lineage) Observed.initial past := by
    rw [guarded_iff]
    intro before a after t hpast ht
    apply h before a (after ++ rest) t _ ht
    simp [hpast]
  have hfrozen : Frozen lineage past s :=
    hok.invariant_history (fun _ _ _ _ hs hok ht => hs.step hok ht) Frozen.initial hrun
  apply hfrozen.cancels

/-- A session is granted full access, and then the user switches the mode to ask. -/
def grantThenAsk : List Action :=
  [.snapshotFor "s", .escalateSessionMode "s" .full, .configureMode .ask]

/-- The snapshot of an escalated session keeps full mode when the user switches to ask mode. -/
theorem not_cancels :
  ¬ ∀ lineage as s, run (Observed.step lineage) Observed.initial as = some s → Cancels lineage as s
  := by
  intro h
  have hcancels := h (fun _ => ⟨0, none⟩) grantThenAsk _ rfl
  rcases hcancels.top "s" _ _ rfl rfl rfl with htaken | hsince
  · cases htaken
  · apply not_escalatedSince [.snapshotFor "s", .escalateSessionMode "s" .full] "s" .ask hsince

end SessionPolicy

end Permission
