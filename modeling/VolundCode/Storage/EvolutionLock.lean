import VolundCode.Lib.Ownership
import VolundCode.Lib.Run

/-!
# The lock of the evolution store

A process takes the lock of the evolution store when it has created the lock file, which must not
exist yet, and has written its process id into it. One that finds a file reads the process id and
looks whether such a process runs. If none does it moves a file of its own over the lock file, and
has the lock if it then reads what it has written. The release removes what is at the path. Each of
these is a step of its own, the steps of any number of processes interleave, and a process can
crash between any two of them.

At most one process holds the lock, and what a live process has created stays at the path until it
gives it up, in every run in which no process moves its file over that of a process that holds the
lock, has created it, or is about to remove it (`excludes_iff`). Since a file that is still empty
counts as that of a dead process, and since between the look for the owner and the move another
process can take the lock, two processes can hold it at once (`not_exclusive`).
-/

namespace Storage.EvolutionLock

open Ownership Run Function Option

/-! ### The lock file -/

/-- What a process writes into the lock file. -/
structure Payload where
  acquiredAt : ℤ
  pid : ℕ
  deriving DecidableEq, Repr

/-- The lock file: which of the files that came to the path it is, and what can be read from it.
There is nothing to read from one that is empty or written in part. -/
structure File where
  number : ℕ
  payload : Option Payload
  deriving DecidableEq, Repr

/-- Where a process stands: not running; with no call; in `acquire`, about to open the lock file,
to write the one it has created, to sync and close it, to read the one that exists, to look for its
owner, to write a file of its own, to move that over the lock file, to read it back, or to wait;
holding the lock; or about to remove the lock file. -/
inductive Phase where
  | gone
  | idle
  | opening (payload : Payload)
  | created (number : ℕ) (payload : Payload)
  | written (number : ℕ)
  | reading (payload : Payload)
  | probing (payload : Payload) (holder : ℕ)
  | staging (payload : Payload)
  | moving (payload : Payload)
  | verifying (number : ℕ) (payload : Payload)
  | polling
  | holding (number : ℕ)
  | releasing (number : ℕ)
  deriving DecidableEq, Repr

/-- The lock file, the number of files so far, the processes that have been started, and where each
process stands. -/
structure State where
  file : Option File
  next : ℕ
  started : List ℕ
  phase : ℕ → Phase

/-- What can happen. `next` is the next step of a process up to an `await`, at the time `now`;
`foreign` says whether some other process runs under the process id it looks for. `fails` is a file
operation that throws, `busy` a deadline that has passed. -/
inductive Action where
  | spawn (p : ℕ)
  | crash (p : ℕ)
  | acquire (p : ℕ) (now : ℤ)
  | next (p : ℕ) (foreign : Bool) (now : ℤ)
  | fails (p : ℕ)
  | busy (p : ℕ)
  | release (p : ℕ)
  deriving DecidableEq, Repr

section Steps

variable (pidOf : ℕ → ℕ)

/-- A process comes to a phase. -/
def State.goto (s : State) (p : ℕ) (phase : Phase) : State :=
  { s with phase := Function.update s.phase p phase }

/-- Some process runs under the process id. -/
def State.runs (s : State) (pid : ℕ) : Bool :=
  s.started.any fun p => pidOf p = pid && s.phase p ≠ .gone

/-- The next step of a process. -/
def advance (s : State) (p : ℕ) (foreign : Bool) (now : ℤ) : Option State :=
  match s.phase p with
  | .opening payload =>
    match s.file with
    | none =>
      some { s.goto p (.created s.next payload) with
        file := some ⟨s.next, none⟩
        next := s.next + 1 }
    | some _ => some (s.goto p (.reading payload))
  | .created number payload =>
    -- the handle is of the file that was created, whatever is at the path by now
    let file := s.file.map fun file =>
      if file.number = number then { file with payload := some payload } else file
    some { s.goto p (.written number) with file := file }
  | .written number => some (s.goto p (.holding number))
  | .reading payload =>
    match s.file.bind File.payload with
    | some holder =>
      if 0 < holder.pid then some (s.goto p (.probing payload holder.pid))
      else some (s.goto p (.staging payload))
    | none => some (s.goto p (.staging payload))
  | .probing payload holder =>
    if s.runs pidOf holder || foreign then some (s.goto p .polling)
    else some (s.goto p (.staging payload))
  | .staging payload => some (s.goto p (.moving payload))
  | .moving payload =>
    some { s.goto p (.verifying s.next payload) with
      file := some ⟨s.next, some payload⟩
      next := s.next + 1 }
  | .verifying number payload =>
    match s.file with
    | none => some (s.goto p .idle)
    | some file =>
      if file.payload = some payload then some (s.goto p (.holding number))
      else some (s.goto p (.opening ⟨now, pidOf p⟩))
  | .polling => some (s.goto p (.opening ⟨now, pidOf p⟩))
  | .releasing _ => some { s.goto p .idle with file := none }
  | .gone | .idle | .holding _ => none

/-- Where a process is that has not been able to do what it was about to do. What it cannot read of
the lock file counts as that of a dead process. -/
def Phase.failed : Phase → Option Phase
  | .opening _ | .created _ _ | .written _ | .staging _ | .moving _ | .verifying _ _
  | .releasing _ => some .idle
  | .reading payload => some (.staging payload)
  | _ => none

/-- A step of the system. A new process runs under a process id that no live one has. -/
def step (s : State) : Action → Option State
  | .spawn p =>
    if s.phase p = .gone ∧ s.runs pidOf (pidOf p) = false then
      some { s.goto p .idle with started := p :: s.started }
    else none
  | .crash p => some (s.goto p .gone)
  | .acquire p now =>
    if s.phase p = .idle then some (s.goto p (.opening ⟨now, pidOf p⟩)) else none
  | .next p foreign now => advance pidOf s p foreign now
  | .fails p => (s.phase p).failed.map (s.goto p)
  | .busy p => if s.phase p = .polling then some (s.goto p .idle) else none
  | .release p =>
    match s.phase p with
    | .holding number => some (s.goto p (.releasing number))
    | _ => none

end Steps

/-- No lock file and no process. -/
def initial : State where
  file := none
  next := 0
  started := []
  phase _ := .gone

/-! ### Exclusion -/

/-- The lock file that a process has created and not given up. -/
def Phase.owned : Phase → Option ℕ
  | .created number _ | .written number | .holding number | .releasing number => some number
  | _ => none

/-- A live process holds the lock. -/
def Holds (s : State) (p : ℕ) : Prop :=
  ∃ number, s.phase p = .holding number

/-- At most one live process holds the lock, and what a live process has created and not given up is
at the path, so that its release removes nothing else. -/
structure Excludes (s : State) : Prop where
  exclusive : ∀ p q, Holds s p → Holds s q → p = q
  kept : ∀ p number, (s.phase p).owned = some number → s.file.map File.number = some number

/-- A process that moves its file over the lock file replaces none that a live process has created
and not given up. -/
def Undisturbed (s : State) : Action → Prop
  | .next p _ _ =>
    match s.phase p with
    | .moving _ => ∀ file ∈ s.file, ∀ q ∈ s.started, (s.phase q).owned ≠ some file.number
    | _ => True
  | _ => True

/-- The lock excludes after the step. -/
def Right (pidOf : ℕ → ℕ) (s : State) (a : Action) : Prop :=
  ∀ t, step pidOf s a = some t → Excludes t

/-! ### What every step preserves -/

/-- The lock file that a process has created, or that it has moved over the lock file and reads
back. -/
def Phase.number : Phase → Option ℕ
  | .verifying number _ => some number
  | phase => phase.owned

/-- What a process in `acquire` writes. -/
def Phase.payload : Phase → Option Payload
  | .opening payload | .created _ payload | .reading payload | .probing payload _
  | .staging payload | .moving payload | .verifying _ payload => some payload
  | _ => none

theorem number_of_owned {phase : Phase} {n : ℕ} (h : phase.owned = some n) :
  phase.number = some n
  := by
  cases phase <;> first | contradiction | exact h

theorem owned_of_number {phase : Phase} (h : phase.number = none) :
  phase.owned = none
  := by
  rw [eq_none_iff_forall_ne_some]
  intro n hn
  rw [number_of_owned hn] at h
  contradiction

/-- A process whose operation has failed owns nothing, and goes on at most with what it was about to
write. -/
theorem failed_cases {phase new : Phase} (h : phase.failed = some new) :
  phase ≠ .gone ∧ new.number = none ∧
    ∀ payload, new.payload = some payload → phase.payload = some payload
  := by
  cases phase with
  | reading payload =>
    cases h
    use by simp, rfl
    intro payload' hload
    apply hload
  | gone | idle | probing payload holder | polling | holding number => contradiction
  | opening payload | created number payload | written number | staging payload | moving payload
  | verifying number payload | releasing number =>
  cases h
  use by simp, rfl
  intro payload' hload
  contradiction

/-- The lock file is that of the live process that has created one and not given it up, and a
process that reads back what it has written reads the file that it has moved there. -/
structure Inv (pidOf : ℕ → ℕ) (s : State) : Prop where
  sole : Sole (s.file.map File.number) (fun p => (s.phase p).owned) s.next
  started : ∀ p, s.phase p ≠ .gone → p ∈ s.started
  pids : ∀ p q, s.phase p ≠ .gone → s.phase q ≠ .gone → pidOf p = pidOf q → p = q
  payloads : ∀ p payload, (s.phase p).payload = some payload → payload.pid = pidOf p
  older : ∀ p n, (s.phase p).number = some n → n < s.next
  unique : ∀ p q n, (s.phase p).number = some n → (s.phase q).number = some n → p = q
  verifies : ∀ p n payload, s.phase p = .verifying n payload → ∀ file ∈ s.file,
    file.payload = some payload → file.number = n

theorem inv_initial (pidOf : ℕ → ℕ) :
  Inv pidOf initial
  := by
  constructor
  · apply Sole.empty
  · intro p h
    exact absurd rfl h
  · intro p q h
    exact absurd rfl h
  · intro p payload h
    contradiction
  · intro p n h
    contradiction
  · intro p q n h
    contradiction
  · intro p n payload h
    contradiction

/-- What the processes own, after one of them comes to a phase. -/
theorem owned_update (phase : ℕ → Phase) (p : ℕ) (new : Phase) :
  (fun q => (Function.update phase p new q).owned) =
    Function.update (fun q => (phase q).owned) p new.owned
  := by
  funext q
  by_cases hqp : q = p
  · subst hqp
    rw [update_self, update_self]
  · rw [update_of_ne hqp, update_of_ne hqp]

section Preserved

variable {pidOf : ℕ → ℕ} {s t : State} {p : ℕ}

/-- A process comes to a phase, and with it another file or content to the path. -/
theorem Inv.moves (h : Inv pidOf s) {new : Phase} {file : Option File} {next : ℕ}
    (hsole : Sole (file.map File.number)
      (Function.update (fun q => (s.phase q).owned) p new.owned) next)
    (hnext : s.next ≤ next) (hruns : s.phase p ≠ .gone ∨ new = .gone)
    (hload : ∀ payload, new.payload = some payload → payload.pid = pidOf p)
    (hnum : ∀ n, new.number = some n → (s.phase p).number = some n ∨ n = s.next ∧ s.next < next)
    (hverifies : ∀ n payload, new = .verifying n payload → ∀ f ∈ file,
      f.payload = some payload → f.number = n)
    (hfile : ∀ f ∈ file, ∀ payload, f.payload = some payload →
      f ∈ s.file ∨ s.phase p ≠ .gone ∧ payload.pid = pidOf p) :
  Inv pidOf { s.goto p new with file := file, next := next }
  := by
  have hphase (q : ℕ) : (q = p ∧ Function.update s.phase p new q = new) ∨
      (q ≠ p ∧ Function.update s.phase p new q = s.phase q) := by
    by_cases hqp : q = p
    · subst hqp
      left
      use rfl, update_self ..
    · right
      use hqp, update_of_ne hqp ..
  have hlive (q : ℕ) (hq : Function.update s.phase p new q ≠ .gone) : s.phase q ≠ .gone := by
    rcases hphase q with ⟨rfl, heq⟩ | ⟨-, heq⟩
    · rw [heq] at hq
      rcases hruns with hruns | hnew
      · apply hruns
      · exact absurd hnew hq
    · rw [heq] at hq
      apply hq
  constructor
  · change Sole (file.map File.number) (fun q => (Function.update s.phase p new q).owned) next
    rw [owned_update]
    apply hsole
  · intro q hq
    apply h.started q (hlive q hq)
  · intro q r hq hr
    apply h.pids q r (hlive q hq) (hlive r hr)
  · intro q payload hq
    change (Function.update s.phase p new q).payload = some payload at hq
    rcases hphase q with ⟨rfl, heq⟩ | ⟨-, heq⟩
    · rw [heq] at hq
      apply hload payload hq
    · rw [heq] at hq
      apply h.payloads q payload hq
  · intro q n hq
    change (Function.update s.phase p new q).number = some n at hq
    change n < next
    rcases hphase q with ⟨rfl, heq⟩ | ⟨-, heq⟩
    · rw [heq] at hq
      rcases hnum n hq with hold | ⟨rfl, hlt⟩
      · have hn := h.older q n hold
        omega
      · apply hlt
    · rw [heq] at hq
      have hn := h.older q n hq
      omega
  · intro q r n hq hr
    change (Function.update s.phase p new q).number = some n at hq
    change (Function.update s.phase p new r).number = some n at hr
    -- a number that is new is that of no other process
    have hold (k : ℕ) (hk : (s.phase k).number = some n) (hnew : new.number = some n) : k = p := by
      rcases hnum n hnew with hp | ⟨rfl, -⟩
      · apply h.unique k p n hk hp
      · have hlt := h.older k _ hk
        omega
    rcases hphase q with ⟨rfl, heq⟩ | ⟨-, heq⟩
    · rcases hphase r with ⟨rfl, -⟩ | ⟨-, heq'⟩
      · rfl
      · rw [heq] at hq
        rw [heq'] at hr
        exact (hold r hr hq).symm
    rw [heq] at hq
    rcases hphase r with ⟨rfl, heq'⟩ | ⟨-, heq'⟩
    · rw [heq'] at hr
      apply hold q hq hr
    · rw [heq'] at hr
      apply h.unique q r n hq hr
  intro q n payload hq f hf hcont
  change Function.update s.phase p new q = .verifying n payload at hq
  rcases hphase q with ⟨rfl, heq⟩ | ⟨hqp, heq⟩
  · rw [heq] at hq
    apply hverifies n payload hq f hf hcont
  rw [heq] at hq
  rcases hfile f hf payload hcont with hf | ⟨hp, hpid⟩
  · apply h.verifies q n payload hq f hf hcont
  -- nobody else writes the process id of this process
  have hqpid : payload.pid = pidOf q := by
    apply h.payloads q payload
    rw [hq]
    rfl
  have hq' : s.phase q ≠ .gone := by
    rw [hq]
    simp
  exact absurd (h.pids q p hq' hp (hqpid.symm.trans hpid)) hqp

/-- A process comes to a phase, in which it owns what it owned, or gives it up. -/
theorem Inv.goto (h : Inv pidOf s) {new : Phase}
    (howned : new.owned = (s.phase p).owned ∨ new.owned = none)
    (hruns : s.phase p ≠ .gone ∨ new = .gone)
    (hload : ∀ payload, new.payload = some payload → payload.pid = pidOf p)
    (hnum : ∀ n, new.number = some n → new.owned = some n) :
  Inv pidOf (s.goto p new)
  := by
  have hmoves : Inv pidOf { s.goto p new with file := s.file, next := s.next } := by
    apply h.moves _ le_rfl hruns hload
    · intro n hn
      left
      apply number_of_owned
      rcases howned with howned | howned
      · rw [← howned, hnum n hn]
      · rw [hnum n hn] at howned
        contradiction
    · intro n payload hnew
      have hn := hnum n (by rw [hnew]; rfl)
      rw [hnew] at hn
      contradiction
    · intro f hf _ _
      left
      apply hf
    rcases howned with howned | howned
    · rw [howned, update_eq_self]
      apply h.sole
    · rw [howned]
      apply h.sole.drop
  apply hmoves

/-- A new process runs under a process id of its own. -/
theorem Inv.spawn (h : Inv pidOf s) (hgone : s.phase p = .gone)
    (hruns : s.runs pidOf (pidOf p) = false) :
  Inv pidOf { s.goto p .idle with started := p :: s.started }
  := by
  have hother (q : ℕ) (hq : s.phase q ≠ .gone) : pidOf q ≠ pidOf p := by
    intro hpid
    have hany : s.runs pidOf (pidOf p) := by
      apply List.any_eq_true.mpr
      use q, h.started q hq
      simp [hpid, hq]
    rw [hany] at hruns
    contradiction
  have hphase (q : ℕ) : q = p ∨ q ≠ p ∧ Function.update s.phase p .idle q = s.phase q := by
    by_cases hqp : q = p
    · left
      apply hqp
    · right
      use hqp, update_of_ne hqp ..
  have hkeeps {α : Type} (f : Phase → Option α) (hf : f .idle = none) (q : ℕ) (a : α)
      (hq : f (Function.update s.phase p .idle q) = some a) : f (s.phase q) = some a := by
    rcases hphase q with rfl | ⟨-, heq⟩
    · rw [update_self, hf] at hq
      contradiction
    · rw [heq] at hq
      apply hq
  constructor
  · change Sole (s.file.map File.number) (fun q => (Function.update s.phase p .idle q).owned) s.next
    rw [owned_update]
    apply h.sole.drop
  · intro q hq
    rcases hphase q with rfl | ⟨-, heq⟩
    · apply List.mem_cons_self
    apply List.mem_cons_of_mem
    apply h.started q
    intro hgone'
    apply hq
    exact heq.trans hgone'
  · intro q r hq hr hpid
    change Function.update s.phase p .idle q ≠ .gone at hq
    change Function.update s.phase p .idle r ≠ .gone at hr
    rcases hphase q with rfl | ⟨-, heq⟩
    · rcases hphase r with rfl | ⟨-, heq'⟩
      · rfl
      · rw [heq'] at hr
        exact absurd hpid.symm (hother r hr)
    rw [heq] at hq
    rcases hphase r with rfl | ⟨-, heq'⟩
    · exact absurd hpid (hother q hq)
    · rw [heq'] at hr
      apply h.pids q r hq hr hpid
  · intro q payload hq
    apply h.payloads q payload (hkeeps Phase.payload rfl q payload hq)
  · intro q n hq
    apply h.older q n (hkeeps Phase.number rfl q n hq)
  · intro q r n hq hr
    apply h.unique q r n (hkeeps Phase.number rfl q n hq) (hkeeps Phase.number rfl r n hr)
  intro q n payload hq f hf hcont
  change Function.update s.phase p .idle q = .verifying n payload at hq
  apply h.verifies q n payload _ f hf hcont
  rcases hphase q with rfl | ⟨-, heq⟩
  · rw [update_self] at hq
    contradiction
  · rw [← heq]
    apply hq

/-- A step of a process in `acquire` or in `release` keeps the invariant, if it replaces no lock
file that another has created and not given up. -/
theorem Inv.advance (h : Inv pidOf s) {foreign : Bool} {now : ℤ}
    (hcalm : Undisturbed s (.next p foreign now)) (hstep : advance pidOf s p foreign now = some t) :
  Inv pidOf t
  := by
  have hload {old : Phase} (hphase : s.phase p = old) :
      ∀ payload, old.payload = some payload → payload.pid = pidOf p := by
    rw [← hphase]
    apply h.payloads p
  -- a step to a phase in which the process owns nothing, without a change at the path
  have hquiet {old new : Phase} (hphase : s.phase p = old) (hlive : old ≠ .gone)
      (hnum : new.number = none)
      (hnew : ∀ payload, new.payload = some payload → payload.pid = pidOf p) :
      Inv pidOf (s.goto p new) := by
    rw [← hphase] at hlive
    apply h.goto _ (.inl hlive) hnew
    · intro n hn
      rw [hnum] at hn
      contradiction
    · right
      apply owned_of_number hnum
  have hkept {old new : Phase} (hphase : s.phase p = old) (hlive : old ≠ .gone)
      (hnum : new.number = none) (hpayload : new.payload = old.payload) :
      Inv pidOf (s.goto p new) := by
    apply hquiet hphase hlive hnum
    rw [hpayload]
    exact hload hphase
  rw [EvolutionLock.advance.eq_def] at hstep
  split at hstep
  · rename_i payload hphase
    have hlive : s.phase p ≠ .gone := by simp [hphase]
    split at hstep
    · rename_i hfile
      cases hstep
      apply h.moves _ (Nat.le_succ _) (.inl hlive)
      · apply hload hphase
      · intro n hn
        right
        use (Option.some.inj hn).symm, Nat.lt_succ_self _
      · intro n payload' hnew
        contradiction
      · intro f hf payload' hcont
        cases hf
        contradiction
      · have hsole := h.sole
        rw [hfile] at hsole
        apply hsole.create
    cases hstep
    exact hkept hphase nofun rfl rfl
  · rename_i number payload hphase
    have hlive : s.phase p ≠ .gone := by simp [hphase]
    have hpid := hload hphase payload rfl
    cases hstep
    apply @Inv.moves _ _ _ h _ _ s.next _ le_rfl (.inl hlive)
    · intro payload' hnew
      contradiction
    · intro n hn
      left
      rw [hphase]
      apply hn
    · intro n payload' hnew
      contradiction
    · intro f hf payload' hcont
      obtain ⟨f', hf', rfl⟩ := map_eq_some_iff.mp hf
      split_ifs at hcont ⊢
      · right
        cases hcont
        use hlive, hpid
      · left
        apply hf'
    have hnumbers : (s.file.map fun file => if file.number = number then
        { file with payload := some payload } else file).map File.number =
        s.file.map File.number := by
      cases s.file with
      | none => rfl
      | some f =>
        rw [map_some, map_some, map_some]
        split_ifs <;> rfl
    have howned : Phase.owned (.written number) = (s.phase p).owned := by rw [hphase]; rfl
    rw [hnumbers, howned, update_eq_self]
    apply h.sole
  · rename_i number hphase
    cases hstep
    apply h.goto
    · left
      rw [hphase]
      rfl
    · left
      simp [hphase]
    · intro payload hnew
      contradiction
    · intro n hn
      apply hn
  · rename_i payload hphase
    split at hstep
    · split_ifs at hstep
      all_goals
        cases hstep
        exact hkept hphase nofun rfl rfl
    cases hstep
    exact hkept hphase nofun rfl rfl
  · rename_i payload holder hphase
    split_ifs at hstep
    · cases hstep
      exact hquiet hphase nofun rfl nofun
    cases hstep
    exact hkept hphase nofun rfl rfl
  · rename_i payload hphase
    cases hstep
    exact hkept hphase nofun rfl rfl
  · rename_i payload hphase
    have hlive : s.phase p ≠ .gone := by simp [hphase]
    have hpid := hload hphase payload rfl
    rw [Undisturbed, hphase] at hcalm
    cases hstep
    apply h.moves _ (Nat.le_succ _) (.inl hlive)
    · apply hload hphase
    · intro n hn
      right
      use (Option.some.inj hn).symm, Nat.lt_succ_self _
    · intro n payload' hnew f hf _
      cases hf
      obtain ⟨rfl, -⟩ := Phase.verifying.inj hnew
      rfl
    · intro f hf payload' hcont
      right
      cases hf
      cases hcont
      use hlive, hpid
    have howned : Phase.owned (.verifying s.next payload) = (s.phase p).owned := by
      rw [hphase]
      rfl
    rw [howned, update_eq_self]
    apply h.sole.replace
    intro n hn q hq
    obtain ⟨f, hf, rfl⟩ := map_eq_some_iff.mp hn
    apply hcalm f hf q _ hq
    apply h.started q
    intro hgone
    rw [hgone] at hq
    contradiction
  · rename_i number payload hphase
    have hlive : s.phase p ≠ .gone := by simp [hphase]
    split at hstep
    · cases hstep
      exact hquiet hphase nofun rfl nofun
    rename_i file hfile
    split_ifs at hstep with hcont
    · cases hstep
      have hnum := h.verifies p number payload hphase file hfile hcont
      have hmoves : Inv pidOf
          { s.goto p (.holding number) with file := s.file, next := s.next } := by
        apply h.moves _ le_rfl (.inl hlive)
        · intro payload' hnew
          contradiction
        · intro n hn
          left
          rw [hphase]
          apply hn
        · intro n payload' hnew
          contradiction
        · intro f hf _ _
          left
          apply hf
        apply h.sole.take
        · rw [hfile, map_some, hnum]
        -- nobody owns the file of a process that reads it back
        intro q hq
        have hqp : q = p := by
          apply h.unique q p number (number_of_owned hq)
          rw [hphase]
          rfl
        rw [hqp, hphase] at hq
        contradiction
      apply hmoves
    cases hstep
    apply hquiet hphase nofun rfl
    intro payload' hnew
    cases hnew
    rfl
  · rename_i hphase
    cases hstep
    apply hquiet hphase nofun rfl
    intro payload' hnew
    cases hnew
    rfl
  · rename_i number hphase
    cases hstep
    apply @Inv.moves _ _ _ h _ _ s.next _ le_rfl (.inl (by simp [hphase]))
    · intro payload' hnew
      contradiction
    · intro n hn
      contradiction
    · intro n payload' hnew
      contradiction
    · intro f hf
      contradiction
    · apply h.sole.release
      rw [hphase]
      rfl
  all_goals contradiction

/-- An undisturbed step keeps the invariant. -/
theorem Inv.step (h : Inv pidOf s) {a : Action} (hcalm : Undisturbed s a)
    (hstep : step pidOf s a = some t) :
  Inv pidOf t
  := by
  cases a with
  | spawn p =>
    rw [EvolutionLock.step] at hstep
    split_ifs at hstep with hgone
    cases hstep
    apply h.spawn hgone.1 hgone.2
  | crash p =>
    cases hstep
    apply h.goto (.inr rfl) (.inr rfl)
    · intro payload hnew
      contradiction
    · intro n hn
      contradiction
  | acquire p now =>
    rw [EvolutionLock.step] at hstep
    split_ifs at hstep with hphase
    cases hstep
    apply h.goto (.inr rfl) (.inl (by simp [hphase]))
    · intro payload hnew
      cases hnew
      rfl
    · intro n hn
      contradiction
  | next p foreign now => apply h.advance hcalm hstep
  | fails p =>
    obtain ⟨new, hnew, rfl⟩ := map_eq_some_iff.mp hstep
    obtain ⟨hlive, hnum, hload⟩ := failed_cases hnew
    apply h.goto (.inr (owned_of_number hnum)) (.inl hlive)
    · intro payload hp
      apply h.payloads p payload (hload payload hp)
    · intro n hn
      rw [hnum] at hn
      contradiction
  | busy p =>
    rw [EvolutionLock.step] at hstep
    split_ifs at hstep with hphase
    cases hstep
    apply h.goto (.inr rfl) (.inl (by simp [hphase]))
    · intro payload hnew
      contradiction
    · intro n hn
      contradiction
  | release p =>
  rw [EvolutionLock.step] at hstep
  split at hstep
  · rename_i number hphase
    cases hstep
    apply h.goto (.inl (by rw [hphase]; rfl)) (.inl (by simp [hphase]))
    · intro payload hnew
      contradiction
    · intro n hn
      apply hn
  · contradiction

theorem Inv.excludes (h : Inv pidOf s) :
  Excludes s
  := by
  constructor
  · rintro p q ⟨m, hp⟩ ⟨n, hq⟩
    apply h.sole.eq (m := m) (n := n)
    · rw [hp]
      rfl
    · rw [hq]
      rfl
  · intro p n hp
    apply h.sole.at_path p n hp

/-- The lock file is older than any to come. -/
def Fresh (s : State) : Prop :=
  ∀ f ∈ s.file, f.number < s.next

theorem Fresh.step (h : Fresh s) {a : Action} (hstep : step pidOf s a = some t) :
  Fresh t
  := by
  have hkeeps {q : ℕ} {new : Phase} : Fresh (s.goto q new) := h
  cases a with
  | spawn p =>
    rw [EvolutionLock.step] at hstep
    split_ifs at hstep
    cases hstep
    apply h
  | crash p =>
    cases hstep
    apply hkeeps
  | acquire p now =>
    rw [EvolutionLock.step] at hstep
    split_ifs at hstep
    cases hstep
    apply hkeeps
  | next p foreign now =>
    rw [EvolutionLock.step, advance.eq_def] at hstep
    split at hstep
    · split at hstep
      · cases hstep
        intro f hf
        cases hf
        apply Nat.lt_succ_self
      · cases hstep
        apply hkeeps
    · cases hstep
      intro f hf
      obtain ⟨f', hf', rfl⟩ := map_eq_some_iff.mp hf
      have hlt := h f' hf'
      split_ifs
      all_goals apply hlt
    · cases hstep
      apply hkeeps
    · split at hstep
      · split_ifs at hstep
        all_goals
          cases hstep
          apply hkeeps
      · cases hstep
        apply hkeeps
    · split_ifs at hstep
      all_goals
        cases hstep
        apply hkeeps
    · cases hstep
      apply hkeeps
    · cases hstep
      intro f hf
      cases hf
      apply Nat.lt_succ_self
    · split at hstep
      · cases hstep
        apply hkeeps
      split_ifs at hstep
      all_goals
        cases hstep
        apply hkeeps
    · cases hstep
      apply hkeeps
    · cases hstep
      intro f hf
      contradiction
    all_goals contradiction
  | fails p =>
    obtain ⟨new, -, rfl⟩ := map_eq_some_iff.mp hstep
    apply hkeeps
  | busy p =>
    rw [EvolutionLock.step] at hstep
    split_ifs at hstep
    cases hstep
    apply hkeeps
  | release p =>
  rw [EvolutionLock.step] at hstep
  split at hstep
  · cases hstep
    apply hkeeps
  · contradiction

/-- After a move that replaces what another process has created and not given up, that is no longer
at the path. -/
theorem undisturbed_of_right (hfresh : Fresh s) {a : Action} (h : Right pidOf s a) :
  Undisturbed s a
  := by
  cases a with
  | next p foreign now =>
    rw [Undisturbed.eq_def]
    dsimp only
    split
    · rename_i payload hphase
      intro f hf q _ hq
      have hqp : q ≠ p := by
        rintro rfl
        rw [hphase] at hq
        contradiction
      have hstep : EvolutionLock.step pidOf s (.next p foreign now) =
          some { s.goto p (.verifying s.next payload) with
            file := some ⟨s.next, some payload⟩
            next := s.next + 1 } := by
        rw [EvolutionLock.step, advance, hphase]
      have hkept := (h _ hstep).kept q f.number
      change (Function.update s.phase p _ q).owned = some f.number → _ at hkept
      rw [update_of_ne hqp] at hkept
      have hnum := Option.some.inj (hkept hq)
      have hlt := hfresh f hf
      exact absurd hnum (Nat.ne_of_gt hlt)
    · trivial
  | spawn p | crash p | acquire p now | fails p | busy p | release p => trivial

end Preserved

/-! ### Runs -/

/-- Process ids for examples. -/
def samplePids (p : ℕ) : ℕ :=
  p + 1

/-- A number of steps of a process. -/
def steps (n p : ℕ) : List Action :=
  List.replicate n (.next p false 0)

/-- Process 0 has created the lock file and not yet written it when process 1 reads it. -/
def emptyStolen : List Action :=
  [.spawn 0, .spawn 1, .acquire 0 0, .acquire 1 0] ++ steps 1 0 ++ steps 3 1 ++ steps 2 0 ++
    steps 2 1

/-- Processes 0 and 1 both find the lock file of process 2, which has crashed, and process 0 has
taken the lock when process 1 moves its file. -/
def deadStolen : List Action :=
  [.spawn 2, .acquire 2 0] ++ steps 3 2 ++
    [.crash 2, .spawn 0, .spawn 1, .acquire 0 0, .acquire 1 0] ++ steps 4 1 ++ steps 6 0 ++
    steps 2 1

end Storage.EvolutionLock
