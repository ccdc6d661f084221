import VolundCode.Storage.LockedStore

/-!
# Snapshots with a backup

The tasks are kept as one snapshot in one file, and so are the records of the local repository of
memories. A call that saves writes the new snapshot to a temporary file, removes the backup of the
old one, renames the old one to the backup and the temporary file to the snapshot. If one of these
fails it renames the backup to the snapshot.

While neither the snapshot nor its backup exists what has been loaded is lost to all other calls,
and a backup that cannot be removed replaces the snapshot, which is newer. In the runs in which no
call stops in the one, and the other does not happen, the snapshot is what the operations of the
calls that have returned, and of some that have not, make of the first one after the other
(`serial_run`).
-/

namespace Storage.SnapshotFile

open LockedStore Run List Function

/-! ### Files -/

/-- The snapshot and its backup, as far as they exist. -/
structure Files (σ : Type) where
  primary : Option σ
  backup : Option σ
  deriving DecidableEq, Repr

variable {σ : Type}

/-- The snapshot that a call loads: the backup stands in for it, and there is nothing in the store
that has neither. -/
def Files.loadUnlocked (empty : σ) (files : Files σ) : σ :=
  (files.primary <|> files.backup).getD empty

/-- Neither the snapshot nor its backup exists. -/
def Files.missing (files : Files σ) : Bool :=
  files.primary.isNone && files.backup.isNone

/-- What a call does that saves, and what it does where that fails: write the temporary file, remove
the backup, rename the snapshot to it, rename the temporary file to the snapshot, sync the
directory, and rename the backup to the snapshot. -/
inductive Write (σ : Type) where
  | stage
  | dropBackup
  | backUp
  | install (snapshot : σ)
  | syncDirectory
  | restore
  deriving DecidableEq, Repr

/-- What one of these does to the files. A file that does not exist cannot be renamed. -/
def perform : Write σ → Files σ → Files σ
  | .stage, files | .syncDirectory, files => files
  | .dropBackup, files => { files with backup := none }
  | .backUp, files =>
    match files.primary with
    | none => files
    | some snapshot => { primary := none, backup := some snapshot }
  | .install snapshot, files => { files with primary := some snapshot }
  | .restore, files =>
    match files.backup with
    | none => files
    | some snapshot => { primary := some snapshot, backup := none }

/-- What a call writes that saves a snapshot. -/
def saveUnlocked (snapshot : σ) : List (Write σ) :=
  [.stage, .dropBackup, .backUp, .install snapshot, .syncDirectory]

/-- What follows an error. -/
def recover : Write σ → List (Write σ)
  | .stage | .restore => []
  | _ => [.restore]

/-! ### Stores -/

/-- A store of snapshots: what an operation makes of a snapshot, `some none` where it saves none and
`none` where it throws. -/
structure Snapshots where
  Snapshot : Type
  empty : Snapshot
  Op : Type
  apply : Op → Snapshot → Option (Option Snapshot)
  grace : Bool

variable (M : Snapshots)

/-- The snapshot that an operation loads. -/
def Snapshots.load (files : Files M.Snapshot) : M.Snapshot :=
  files.loadUnlocked M.empty

/-- What a call writes that has or has not a snapshot to save. -/
def writesOf (saved : Option σ) : List (Write σ) :=
  match saved with
  | none => []
  | some snapshot => saveUnlocked snapshot

/-- The store as one behind a lock file. -/
def Snapshots.store : LockedStore.Store where
  Content := Files M.Snapshot
  Op := M.Op
  Write := Write M.Snapshot
  perform := perform
  plan op files := (M.apply op (M.load files)).map writesOf
  recover := recover
  grace := M.grace

/-- The snapshot after an operation. -/
def Snapshots.after (op : M.Op) (snapshot : M.Snapshot) : M.Snapshot :=
  match M.apply op snapshot with
  | some (some saved) => saved
  | _ => snapshot

variable {M}

theorem after_eq {op : M.Op} {snapshot : M.Snapshot} {saved : Option M.Snapshot}
    (h : M.apply op snapshot = some saved) :
  M.after op snapshot = saved.getD snapshot
  := by
  rw [Snapshots.after, h]
  cases saved with
  | none | some v => rfl

/-! ### Losses -/

/-- What the call has loaded is gone from the disk, and what it saves is not there yet. -/
def lossy (content : Files M.Snapshot) : Phase M.store → Bool
  | .saving _ loaded _ _ => content.missing && !loaded.missing
  | _ => false

/-- A backup that cannot be removed replaces the snapshot. -/
def reverting (content : Files M.Snapshot) : Phase M.store → Bool
  | .saving _ _ (.dropBackup :: _) _ => content.primary.isSome && content.backup.isSome
  | _ => false

/-- No call stops between the removal of what it has loaded and the renaming of the new snapshot,
and a backup is removed wherever there is a snapshot besides. -/
def Kept (W : World M.store) (s : State M.store) : Action → Prop
  | .crash process => ∀ call ∈ s.begun, W.procOf call = process →
    lossy (M := M) s.content (s.phase call) = false
  | .fails call => lossy (M := M) s.content (s.phase call) = false ∧
    reverting (M := M) s.content (s.phase call) = false
  | _ => True

instance Kept.decidable (W : World M.store) (s : State M.store) : ∀ a, Decidable (Kept W s a)
  | .crash process => inferInstanceAs (Decidable (∀ call ∈ s.begun, W.procOf call = process →
      lossy (M := M) s.content (s.phase call) = false))
  | .fails call => inferInstanceAs (Decidable (lossy (M := M) s.content (s.phase call) = false ∧
      reverting (M := M) s.content (s.phase call) = false))
  | .spawn _ | .clock _ | .begin _ | .next _ _ | .transient _ | .timeout _ => isTrue True.intro

/-! ### Where the files are while a call saves -/

/-- The files hold what the call has loaded, or what it saves. -/
def Holds (empty : σ) (loaded : Files σ) (saved : σ) (content : Files σ) : Prop :=
  content.loadUnlocked empty = loaded.loadUnlocked empty ∨ content.loadUnlocked empty = saved

/-- The files and what is yet to be written by a call that saves what it has made of the files it
has loaded, and whether something has failed. -/
inductive Traced (empty : σ) (loaded : Files σ) :
    Option σ → Files σ → List (Write σ) → Bool → Prop
  | unchanged : Traced empty loaded none loaded [] false
  | staging (v : σ) : Traced empty loaded (some v) loaded (saveUnlocked v) false
  | staged (v : σ) : Traced empty loaded (some v) loaded
      [.dropBackup, .backUp, .install v, .syncDirectory] false
  | dropped (v : σ) : Traced empty loaded (some v) { loaded with backup := none }
      [.backUp, .install v, .syncDirectory] false
  | backedUp (v : σ) : Traced empty loaded (some v) { primary := none, backup := loaded.primary }
      [.install v, .syncDirectory] false
  | installed (v : σ) : Traced empty loaded (some v)
      { primary := some v, backup := loaded.primary } [.syncDirectory] false
  | saved (v : σ) : Traced empty loaded (some v)
      { primary := some v, backup := loaded.primary } [] false
  | failing {v : σ} {content : Files σ} (h : Holds empty loaded v content)
      (hres : Holds empty loaded v (perform .restore content)) :
    Traced empty loaded (some v) content [.restore] true
  | failed {v : σ} {content : Files σ} (h : Holds empty loaded v content) :
    Traced empty loaded (some v) content [] true

variable {empty : σ} {loaded content : Files σ} {saved : Option σ} {w : Write σ}
  {rest : List (Write σ)} {failed : Bool}

theorem traced_writesOf (saved : Option σ) :
  Traced empty loaded saved loaded (writesOf saved) false
  := by
  cases saved with
  | none => apply Traced.unchanged
  | some v => apply Traced.staging

/-- Without its backup a snapshot is the same. -/
theorem perform_backUp_dropped :
  perform .backUp { loaded with backup := none } = { primary := none, backup := loaded.primary }
  := by
  obtain ⟨primary, backup⟩ := loaded
  cases primary with
  | none | some snapshot => rfl

theorem Traced.write (h : Traced empty loaded saved content (w :: rest) failed) :
  Traced empty loaded saved (perform w content) rest failed
  := by
  cases h with
  | staging v => apply Traced.staged
  | staged v => apply Traced.dropped
  | dropped v =>
    rw [perform_backUp_dropped]
    apply Traced.backedUp
  | backedUp v => apply Traced.installed
  | installed v => apply Traced.saved
  | failing h hres => apply Traced.failed hres

/-- Where what the call has loaded is not gone it is on the disk still, or what it saves is. -/
theorem Traced.holds (h : Traced empty loaded saved content rest failed)
    (hkept : rest ≠ [] → content.missing → loaded.missing) :
  content.loadUnlocked empty = loaded.loadUnlocked empty ∨ saved = some (content.loadUnlocked empty)
  := by
  have hholds {v : σ} {content : Files σ} (h : Holds empty loaded v content) :
      content.loadUnlocked empty = loaded.loadUnlocked empty ∨
        some v = some (content.loadUnlocked empty) := by
    rcases h with h | h
    · left
      apply h
    · right
      rw [h]
  obtain ⟨primary, backup⟩ := loaded
  cases h with
  | unchanged | staging v | staged v =>
    left
    rfl
  | dropped v | backedUp v =>
    left
    cases primary with
    | some snapshot => rfl
    | none =>
      cases backup with
      | none => rfl
      | some snapshot => apply absurd (hkept (by simp) rfl) Bool.false_ne_true
  | installed v | saved v =>
    right
    rfl
  | failing h hres | failed h => apply hholds h

/-- A call in which nothing has failed has saved the snapshot it was to save. -/
theorem Traced.settles (h : Traced empty loaded saved content [] false) :
  content.loadUnlocked empty = saved.getD (loaded.loadUnlocked empty)
  := by
  cases h with
  | unchanged | saved v => rfl

/-- What follows an error restores what the call has loaded, or leaves what it saves. -/
theorem Traced.fail (h : Traced empty loaded saved content (w :: rest) failed)
    (hkept : content.missing → loaded.missing)
    (hdrop : w = .dropBackup → content.primary = none ∨ content.backup = none) :
  Traced empty loaded saved content (if failed then rest else recover w) true
  := by
  have hholds {v : σ} (h : Traced empty loaded (some v) content (w :: rest) failed) :
      Holds empty loaded v content := by
    rcases h.holds (fun _ => hkept) with h | h
    · left
      apply h
    · right
      apply (Option.some.inj h).symm
  obtain ⟨primary, backup⟩ := loaded
  cases h with
  | staging v =>
    apply Traced.failed
    left
    rfl
  | staged v =>
    apply Traced.failing
    · left
      rfl
    left
    -- the old backup comes to the snapshot only where there is none
    cases backup with
    | none => rfl
    | some snapshot =>
    rcases hdrop rfl with hprimary | hback
    · obtain rfl : primary = none := hprimary
      rfl
    · contradiction
  | dropped v =>
    apply Traced.failing (hholds (.dropped v)) (hholds (.dropped v))
  | backedUp v =>
    apply Traced.failing (hholds (.backedUp v))
    cases primary with
    | none => apply hholds (.backedUp v)
    | some snapshot =>
      left
      rfl
  | installed v =>
    apply Traced.failing (hholds (.installed v))
    cases primary with
    | none => apply hholds (.installed v)
    | some snapshot =>
      left
      rfl
  | failing h hres => apply Traced.failed h

/-! ### What the snapshot is made of -/

variable (W : World M.store) (content₀ : Files M.Snapshot)

/-- What the operations of calls make of the first snapshot, one after the other. -/
def replay (calls : List ℕ) : M.Snapshot :=
  calls.foldl (fun snapshot call => M.after (W.op call) snapshot) (M.load content₀)

theorem replay_append_singleton (calls : List ℕ) (call : ℕ) :
  replay W content₀ (calls ++ [call]) = M.after (W.op call) (replay W content₀ calls)
  := by
  rw [replay, foldl_append]
  rfl

/-- The calls in the order in which they have loaded. -/
def callsOf (s : State M.store) : List ℕ :=
  s.sections.map Section.call

/-- The calls that do not save any more, and those of them that have had an effect. While no call
saves the snapshot is what the latter have made of the first; and what a call has loaded that saves
is. -/
structure Settled (s : State M.store) (settled effective : List ℕ) : Prop where
  quiet : (∀ c, (s.phase c).saves = false) →
    callsOf s = settled ∧ M.load s.content = replay W content₀ effective
  saving : ∀ c n loaded rest failed, s.phase c = .saving n loaded rest failed →
    callsOf s = settled ++ [c] ∧ M.load loaded = replay W content₀ effective ∧
      ∃ saved, M.apply (W.op c) (M.load loaded) = some saved ∧
        Traced M.empty loaded saved s.content rest failed
  sublist : effective.Sublist settled
  returned : ∀ c, (s.phase c).succeeded ∨ c ∈ s.returned → c ∈ effective

theorem settled_initial :
  Settled W content₀ (initial (S := M.store) content₀) [] []
  := by
  constructor
  · intro _
    exact ⟨rfl, rfl⟩
  · intro c n loaded rest failed h
    contradiction
  · apply Sublist.refl
  · rintro c (h | h)
    all_goals contradiction

theorem saves_iff {S : LockedStore.Store} {phase : Phase S} :
  phase.saves ↔ ∃ n loaded rest failed, phase = .saving n loaded rest failed
  := by
  constructor
  · intro h
    cases phase with
    | saving n loaded rest failed => use n, loaded, rest, failed
    | _ => contradiction
  · rintro ⟨n, loaded, rest, failed, rfl⟩
    rfl

variable {W content₀} {s t : State M.store} {settled effective : List ℕ}

variable {n : ℕ}

/-- A call that saves is the only one. -/
theorem saving_eq (hinv : Inv W content₀ s) {c d : ℕ} {n' : ℕ} {loaded loaded' : Files M.Snapshot}
    {rest rest' : List (Write M.Snapshot)} {failed' : Bool}
    (hc : s.phase c = .saving n loaded rest failed)
    (hd : s.phase d = .saving n' loaded' rest' failed') :
  c = d
  := by
  apply hinv.exclusive
  · rw [hc]
    rfl
  · rw [hd]
    rfl

/-- Where the same calls save, and the same content is there, the same is settled. -/
theorem Settled.congr (h : Settled W content₀ s settled effective)
    (hcont : t.content = s.content) (hsecs : t.sections = s.sections)
    (hsaves : ∀ c n loaded rest failed, t.phase c = .saving n loaded rest failed ↔
      s.phase c = .saving n loaded rest failed)
    (hsucc : ∀ c, (t.phase c).succeeded ∨ c ∈ t.returned → (s.phase c).succeeded ∨ c ∈ s.returned) :
  Settled W content₀ t settled effective
  := by
  have hcalls : callsOf t = callsOf s := by
    rw [callsOf, hsecs]
    rfl
  constructor
  · intro hquiet
    rw [hcalls, hcont]
    apply h.quiet
    intro c
    apply eq_false_of_ne_true
    intro hc
    obtain ⟨n, loaded, rest, failed, hc⟩ := saves_iff.mp hc
    have htrue : (t.phase c).saves := saves_iff.mpr ⟨n, loaded, rest, failed, (hsaves ..).mpr hc⟩
    rw [hquiet c] at htrue
    contradiction
  · intro c n loaded rest failed hc
    rw [hcalls, hcont]
    apply h.saving c n loaded rest failed ((hsaves ..).mp hc)
  · apply h.sublist
  · intro c hc
    apply h.returned c (hsucc c hc)

variable {call : ℕ}

/-- A call that saves goes on. -/
theorem Settled.saves (h : Settled W content₀ s settled effective) (hinv : Inv W content₀ s)
    {loaded : Files M.Snapshot} {rest rest' : List (Write M.Snapshot)}
    {failed' : Bool} (hphase : s.phase call = .saving n loaded rest failed)
    (hnew : t.phase = Function.update s.phase call (.saving n loaded rest' failed'))
    (hcalls : callsOf t = callsOf s) (hret : t.returned = s.returned)
    (htraced : ∀ saved, Traced M.empty loaded saved s.content rest failed →
      Traced M.empty loaded saved t.content rest' failed') :
  Settled W content₀ t settled effective
  := by
  have hphases (c : ℕ) (hc : c ≠ call) : t.phase c = s.phase c := by
    rw [hnew, update_of_ne hc]
  have hself : t.phase call = .saving n loaded rest' failed' := by
    rw [hnew, update_self]
  constructor
  · intro hquiet
    have hcall := hquiet call
    rw [hself] at hcall
    contradiction
  · intro c m loaded₁ rest₁ failed₁ hc
    have hcall : c = call := by
      by_contra hne
      rw [hphases c hne] at hc
      apply hne (saving_eq hinv hc hphase)
    subst hcall
    rw [hself] at hc
    injection hc with hn hload hrest hfail
    subst hn hload hrest hfail
    obtain ⟨hsecs, hbase, saved, happly, hold⟩ := h.saving _ _ _ _ _ hphase
    rw [hcalls]
    use hsecs, hbase, saved, happly, htraced saved hold
  · apply h.sublist
  intro c hc
  apply h.returned
  rcases hc with hc | hc
  · left
    by_cases hne : c = call
    · subst hne
      rw [hself] at hc
      contradiction
    · rw [← hphases c hne]
      apply hc
  · right
    rw [← hret]
    apply hc

/-- A call that saves is over, or gives up the lock, and what it has saved is there, or what it has
loaded is. -/
theorem Settled.ends (h : Settled W content₀ s settled effective) (hinv : Inv W content₀ s)
    {loaded : Files M.Snapshot} {rest : List (Write M.Snapshot)}
    (hphase : s.phase call = .saving n loaded rest failed)
    (hkept : rest ≠ [] → s.content.missing → loaded.missing)
    (hcont : t.content = s.content) (hsecs : t.sections = s.sections)
    (hcall : (t.phase call).saves = false)
    (hphases : ∀ c, c ≠ call → t.phase c = s.phase c ∨ t.phase c = .ended)
    (hret : t.returned = s.returned)
    (hsucceeds : (t.phase call).succeeded → rest = [] ∧ failed = false) :
  ∃ effective, Settled W content₀ t (settled ++ [call]) effective
  := by
  obtain ⟨hcalls, hbase, saved, happly, htraced⟩ := h.saving _ _ _ _ _ hphase
  have hcalls' : callsOf t = settled ++ [call] := by
    rw [← hcalls, callsOf, hsecs]
    rfl
  -- no call saves any more
  have hquiet (c : ℕ) : (t.phase c).saves = false := by
    by_cases hc : c = call
    · rw [hc, hcall]
    rcases hphases c hc with heq | heq
    · rw [heq]
      apply eq_false_of_ne_true
      intro hsaves
      obtain ⟨n', loaded', rest', failed', hsaves⟩ := saves_iff.mp hsaves
      apply hc (saving_eq hinv hsaves hphase)
    · rw [heq]
      rfl
  have hset {effective' : List ℕ} (hload : M.load s.content = replay W content₀ effective')
      (hsub : effective'.Sublist (settled ++ [call])) (hmem : ∀ c ∈ effective, c ∈ effective')
      (hlast : (t.phase call).succeeded → call ∈ effective') :
      Settled W content₀ t (settled ++ [call]) effective' := by
    constructor
    · intro _
      use hcalls'
      rw [hcont, hload]
    · intro c n' loaded' rest' failed' hc
      have hfalse := hquiet c
      rw [hc] at hfalse
      contradiction
    · apply hsub
    rintro c (hc | hc)
    · by_cases hne : c = call
      · rw [hne] at hc ⊢
        apply hlast hc
      apply hmem c (h.returned c (.inl _))
      rcases hphases c hne with heq | heq
      · rw [← heq]
        apply hc
      · rw [heq] at hc
        contradiction
    · rw [hret] at hc
      apply hmem c (h.returned c (.inr hc))
  have hafter : M.load s.content = saved.getD (M.load loaded) →
      ∃ effective, Settled W content₀ t (settled ++ [call]) effective := by
    intro hload
    use effective ++ [call]
    apply hset
    · rw [replay_append_singleton, ← hbase, after_eq happly, hload]
    · apply h.sublist.append (Sublist.refl _)
    · intro c hc
      apply mem_append_left _ hc
    · intro _
      apply mem_append_right _ mem_cons_self
  by_cases hsucc : (t.phase call).succeeded
  · obtain ⟨rfl, rfl⟩ := hsucceeds hsucc
    apply hafter htraced.settles
  rcases htraced.holds hkept with hload | rfl
  · use effective
    apply hset
    · rw [← hbase]
      apply hload
    · apply h.sublist.trans (sublist_append_left ..)
    · intro c hc
      apply hc
    · intro hcall
      contradiction
  · apply hafter
    rfl

/-- A call loads what has been settled. -/
theorem Settled.load (h : Settled W content₀ s settled effective) (hinv : Inv W content₀ s)
    {plan : List (Write M.Snapshot)} (hphase : s.phase call = .loading n)
    (hplan : M.store.plan (W.op call) s.content = some plan) :
  Settled W content₀ { s.goto call (.saving n s.content plan false) with
    sections := s.sections ++ [⟨call, []⟩] } settled effective
  := by
  have hquiet (c : ℕ) : (s.phase c).saves = false := by
    apply eq_false_of_ne_true
    intro hc
    obtain ⟨n', loaded, rest, failed, hc⟩ := saves_iff.mp hc
    have heq : c = call := by
      apply hinv.exclusive
      · rw [hc]
        rfl
      · rw [hphase]
        rfl
    rw [heq, hphase] at hc
    contradiction
  obtain ⟨hcalls, hload⟩ := h.quiet hquiet
  obtain ⟨saved, happly, rfl⟩ := Option.map_eq_some_iff.mp hplan
  constructor
  · intro hnone
    have hcall := hnone call
    change (Function.update s.phase call _ call).saves = false at hcall
    rw [update_self] at hcall
    contradiction
  · intro c n' loaded rest failed hc
    change Function.update s.phase call _ c = _ at hc
    by_cases hne : c = call
    · subst hne
      rw [update_self] at hc
      injection hc with hn hloaded hrest hfail
      subst hn hloaded hrest hfail
      constructor
      · rw [← hcalls, callsOf, map_append]
        rfl
      · use hload, saved, happly, traced_writesOf saved
    rw [update_of_ne hne] at hc
    have hfalse := hquiet c
    rw [hc] at hfalse
    contradiction
  · apply h.sublist
  rintro c (hc | hc)
  · change (Function.update s.phase call _ c).succeeded = true at hc
    by_cases hne : c = call
    · rw [hne, update_self] at hc
      contradiction
    · rw [update_of_ne hne] at hc
      apply h.returned c (.inl hc)
  · apply h.returned c (.inr hc)

/-- What the call has loaded that saves is gone only where it was lost. -/
theorem missing_of_not_lossy {loaded : Files M.Snapshot} {rest : List (Write M.Snapshot)}
    (h : lossy (M := M) s.content (s.phase call) = false)
    (hphase : s.phase call = .saving n loaded rest failed) (hmissing : s.content.missing) :
  loaded.missing
  := by
  rw [hphase] at h
  change (s.content.missing && !loaded.missing) = false at h
  rw [hmissing, Bool.true_and] at h
  simpa using h

/-- A process crashes, and what has been settled stays, or more is. -/
theorem Settled.crash (h : Settled W content₀ s settled effective) (hinv : Inv W content₀ s)
    {process : ℕ} (hkept : Kept W s (.crash process)) :
  ∃ settled effective, Settled W content₀ { s with
    running := s.running.filter fun other => other ≠ process
    phase := fun c => if W.procOf c = process then .ended else s.phase c } settled effective
  := by
  by_cases hsaves : ∃ c, W.procOf c = process ∧ (s.phase c).saves
  · obtain ⟨call, hcall, hsaves⟩ := hsaves
    obtain ⟨n, loaded, rest, failed, hphase⟩ := saves_iff.mp hsaves
    use settled ++ [call]
    apply h.ends hinv hphase
    · intro _
      apply missing_of_not_lossy (hkept call _ hcall) hphase
      apply hinv.begun
      rw [hphase]
      rfl
    · rfl
    · rfl
    · change (if W.procOf call = process then (Phase.ended : Phase M.store) else _).saves = false
      rw [if_pos hcall]
      rfl
    · intro c _
      change (if W.procOf c = process then _ else _) = _ ∨
        (if W.procOf c = process then _ else _) = _
      split_ifs
      · right
        rfl
      · left
        rfl
    · rfl
    intro hsucc
    change (if W.procOf call = process then (Phase.ended : Phase M.store) else _).succeeded = true
      at hsucc
    rw [if_pos hcall] at hsucc
    contradiction
  use settled, effective
  apply Settled.congr h
  · rfl
  · rfl
  · intro c n loaded rest failed
    change (if W.procOf c = process then _ else _) = _ ↔ _
    split_ifs with hc
    · constructor
      · intro hphase
        contradiction
      intro hphase
      apply absurd _ hsaves
      use c, hc
      rw [hphase]
      rfl
    · rfl
  rintro c (hc | hc)
  · left
    change (if W.procOf c = process then (Phase.ended : Phase M.store) else _).succeeded = true
      at hc
    split_ifs at hc
    · contradiction
    · apply hc
  · right
    apply hc

/-- Whatever a step does that loses nothing, something is settled. -/
theorem Settled.step (h : Settled W content₀ s settled effective) (hinv : Inv W content₀ s)
    {a : Action} (hkept : Kept W s a) (hstep : LockedStore.step W s a = some t) :
  ∃ settled effective, Settled W content₀ t settled effective
  := by
  cases moves_step hstep with
  | idle hcont hsecs hsaves hsucceeds =>
    use settled, effective
    apply h.congr hcont hsecs hsaves hsucceeds
  | crash ht =>
    rw [ht]
    apply h.crash hinv hkept
  | load hphase hplan ht =>
    use settled, effective
    rw [ht]
    apply h.load hinv hphase hplan
  | @write _ call n loaded w rest failed hphase ht =>
    use settled, effective
    apply h.saves hinv hphase
    · rw [ht]
      rfl
    · rw [ht, callsOf, callsOf]
      change List.map _ (List.map _ s.sections) = _
      rw [map_map]
      apply map_congr_left
      intro sec _
      change (if sec.call = call then _ else _ : Section M.store).call = _
      split_ifs
      · rfl
      · rfl
    · rw [ht]
      rfl
    · intro saved htraced
      rw [ht]
      apply htraced.write
  | @fail call n loaded w rest failed hphase ht =>
    use settled, effective
    obtain ⟨hlossy, hreverting⟩ := hkept
    apply h.saves hinv hphase
    · rw [ht]
      rfl
    · rw [ht]
      rfl
    · rw [ht]
      rfl
    intro saved htraced
    rw [ht]
    apply htraced.fail (missing_of_not_lossy hlossy hphase)
    rintro rfl
    rw [hphase] at hreverting
    rcases Bool.and_eq_false_iff.mp hreverting with hnone | hnone
    · left
      apply Option.isNone_iff_eq_none.mp
      rw [← Option.not_isSome, hnone]
      rfl
    right
    apply Option.isNone_iff_eq_none.mp
    rw [← Option.not_isSome, hnone]
    rfl
  | @close _ call n loaded failed hphase ht =>
  use settled ++ [call]
  have hself : t.phase call = .releasing n !failed := by
    rw [ht]
    apply update_self
  apply h.ends hinv hphase
  · intro hrest
    contradiction
  · rw [ht]
    rfl
  · rw [ht]
    rfl
  · rw [hself]
    rfl
  · intro c hc
    left
    rw [ht]
    apply update_of_ne hc
  · rw [ht]
    rfl
  intro hsucc
  rw [hself] at hsucc
  use rfl
  simpa [Phase.succeeded] using hsucc

/-! ### Runs -/

variable (W)

/-- No call disturbs another, and none loses a snapshot. -/
def Careful (s : State M.store) (a : Action) : Prop :=
  LockedStore.Undisturbed s a ∧ Kept W s a

instance Careful.decidable (s : State M.store) (a : Action) : Decidable (Careful W s a) :=
  inferInstanceAs (Decidable (_ ∧ _))

variable (content₀) in
/-- What all runs of careful steps have in common: the calls that have returned are among some, in
the order in which they have loaded, whose operations have made the snapshot of the first. -/
def Replayed (s : State M.store) : Prop :=
  ∃ effective : List ℕ, effective.Sublist (callsOf s) ∧ (∀ call ∈ s.returned, call ∈ effective) ∧
    ((∀ c, (s.phase c).saves = false) → M.load s.content = replay W content₀ effective)

variable {W}

theorem Settled.replayed (h : Settled W content₀ s settled effective) :
  Replayed W content₀ s
  := by
  have hsub : effective.Sublist (callsOf s) := by
    by_cases hsaves : ∀ c, (s.phase c).saves = false
    · rw [(h.quiet hsaves).1]
      apply h.sublist
    obtain ⟨c, hc⟩ := not_forall.mp hsaves
    obtain ⟨n, loaded, rest, failed, hc⟩ := saves_iff.mp (Bool.eq_true_of_not_eq_false hc)
    rw [(h.saving c n loaded rest failed hc).1]
    apply h.sublist.trans (sublist_append_left ..)
  use effective, hsub
  constructor
  · intro call hcall
    apply h.returned call (.inr hcall)
  · intro hquiet
    apply (h.quiet hquiet).2

/-- In every run of careful steps the critical sections do not overlap, and the snapshot is what
the operations of the calls that have returned, and of some that have not, make of the first. -/
theorem serial_run {actions : List Action}
    (h : Guarded (LockedStore.step W) (Careful W) (initial (S := M.store) content₀) actions)
    (hrun : run (LockedStore.step W) (initial (S := M.store) content₀) actions = some s) :
  Exclusive s ∧ Replayed W content₀ s
  := by
  have hinv : Inv W content₀ s ∧ ∃ settled effective, Settled W content₀ s settled effective := by
    apply h.invariant _ _ hrun
    · rintro s a t ⟨hs, settled, effective, hset⟩ ⟨hcalm, hkept⟩ ht
      use hs.step hcalm ht
      apply hset.step hs hkept ht
    · use inv_initial W content₀, [], []
      apply settled_initial
  obtain ⟨hinv, settled, effective, hset⟩ := hinv
  exact ⟨hinv.exclusive, hset.replayed⟩

end Storage.SnapshotFile
