import VolundCode.Lib.Run
import Mathlib.Tactic

/-!
# The turn queue of the gateway

`TurnQueue.acquire` chains promises: a call waits for the promise `tail` held when it was
made and puts its own promise there. A call is let in when the promise it waits for is
resolved, and it resolves its own promise when it is released. A call whose timer fires
first gives up and resolves its own promise at once.

The queue excludes and keeps the order of the calls in every run in which no call stands
behind a waiter that gave up until every call before that waiter has been settled
(`fair_of_unhurried`). Otherwise the waiter that gives up lets the next call in next to the
holder (`not_fair`).
-/

namespace TurnQueue

open Run List

/-! ### The queue -/

/-- What has become of a call of `acquire`. -/
inductive Phase where
  | waiting
  | granted
  | released
  | timedOut
  deriving DecidableEq, Repr

/-- A call of `acquire`: the promise it waits for, the promise its `release` resolves, and
what has become of it. -/
structure Acquire where
  previous : ℕ
  own : ℕ
  phase : Phase
  deriving DecidableEq, Repr

/-- A queue: the promise at the end of the chain, the promises that are resolved, the number
of holders, and the calls made so far in the order they were made. Promise `0` is the
resolved promise the chain starts from. -/
structure State where
  tail : ℕ
  resolved : List ℕ
  depth : ℤ
  calls : List Acquire
  deriving DecidableEq, Repr

/-- A queue on which no call has been made. -/
def initial : State where
  tail := 0
  resolved := [0]
  depth := 0
  calls := []

/-- `locked`: some call holds the queue. -/
def State.locked (s : State) : Bool :=
  decide (s.depth > 0)

/-- What can happen to a queue: a call of `acquire`, the continuation of call `i` after the
promise it waits for won the race, the timer of call `i`, and a call of the release
function call `i` was given. -/
inductive Action where
  | acquire
  | grant (i : ℕ)
  | timeout (i : ℕ)
  | release (i : ℕ)
  deriving DecidableEq, Repr

/-- The queue with the phase of call `i` changed. -/
def State.setPhase (s : State) (i : ℕ) (c : Acquire) (p : Phase) : State :=
  { s with calls := s.calls.set i { c with phase := p } }

/-- The queue with the promise `p` resolved. -/
def State.resolve (s : State) (p : ℕ) : State :=
  { s with resolved := p :: s.resolved }

/-- The step of a queue. A timer that fires after the race has been settled, and a release
function called again, change nothing. -/
def step (s : State) : Action → Option State
  | .acquire =>
    let own := s.calls.length + 1
    some { s with
      tail := own
      calls := s.calls ++ [{ previous := s.tail, own := own, phase := .waiting }] }
  | .grant i =>
    match s.calls[i]? with
    | none => none
    | some c =>
      if c.phase = .waiting ∧ c.previous ∈ s.resolved then
        some { s.setPhase i c .granted with depth := s.depth + 1 }
      else none
  | .timeout i =>
    match s.calls[i]? with
    | none => none
    | some c =>
      if c.phase = .waiting then some ((s.setPhase i c .timedOut).resolve c.own) else some s
  | .release i =>
    match s.calls[i]? with
    | none => none
    | some c =>
      if c.phase = .granted then
        some { (s.setPhase i c .released).resolve c.own with depth := s.depth - 1 }
      else if c.phase = .released then some s
      else none

/-- The calls let in during a run, in the order they were let in. -/
def grants (as : List Action) : List ℕ :=
  as.filterMap fun a =>
    match a with
    | .grant i => some i
    | _ => none

/-! ### Fairness -/

/-- What has become of call `i`, if it was made. -/
def State.phase (s : State) (i : ℕ) : Option Phase :=
  (s.calls[i]?).map Acquire.phase

/-- Call `i` was made and is neither released nor timed out. -/
def State.Active (s : State) (i : ℕ) : Prop :=
  s.phase i = some .waiting ∨ s.phase i = some .granted

instance (s : State) (i : ℕ) : Decidable (s.Active i) :=
  inferInstanceAs (Decidable (_ ∨ _))

/-- At most one call holds the queue. -/
def Exclusive (s : State) : Prop :=
  ∀ i j, s.phase i = some .granted → s.phase j = some .granted → i = j

/-- The calls were let in in the order they were made, past none but calls that gave up. -/
def Ordered (as : List Action) (s : State) : Prop :=
  (grants as).Pairwise (· < ·) ∧
    ∀ j ∈ grants as, ∀ i < j, i ∈ grants as ∨ s.phase i = some .timedOut

/-- The queue is a fair lock at the end of the run `as`. -/
structure Fair (as : List Action) (s : State) : Prop where
  exclusive : Exclusive s
  ordered : Ordered as s

/-- A waiter gives up only when no waiter stands behind it, and a call is made behind a
waiter that gave up only when every call before it is settled. -/
def Unhurried (s : State) : Action → Prop
  | .acquire =>
    s.phase (s.calls.length - 1) = some .timedOut → ∀ i < s.calls.length, ¬ s.Active i
  | .timeout i => ∀ j < s.calls.length, i < j → s.phase j ≠ some .waiting
  | _ => True

instance (s : State) : ∀ a, Decidable (Unhurried s a)
  | .acquire => inferInstanceAs (Decidable (_ → ∀ i < _, ¬ s.Active i))
  | .timeout i => inferInstanceAs (Decidable (∀ j < _, i < j → _ ≠ _))
  | .grant _ => isTrue True.intro
  | .release _ => isTrue True.intro

/-! ### What a step does -/

/-- The action `a` changes the phase of call `i` from one phase to another. -/
inductive Turn : Action → ℕ → Phase → Phase → Prop where
  | grant (i : ℕ) : Turn (.grant i) i .waiting .granted
  | timeout (i : ℕ) : Turn (.timeout i) i .waiting .timedOut
  | release (i : ℕ) : Turn (.release i) i .granted .released

variable {a : Action} {i : ℕ}

/-- A call whose phase changes is waiting or holds the queue. -/
theorem Turn.from_active {old new : Phase} (h : Turn a i old new) :
  old = .waiting ∨ old = .granted
  := by
  cases h with
  | grant | timeout => left; rfl
  | release => right; rfl

/-- A call whose phase changes is let in, times out or is released. -/
theorem Turn.to_cases {old new : Phase} (h : Turn a i old new) :
  (a = .grant i ∧ old = .waiting ∧ new = .granted) ∨
    (a = .timeout i ∧ old = .waiting ∧ new = .timedOut) ∨
    (a = .release i ∧ old = .granted ∧ new = .released)
  := by
  cases h with
  | grant => left; exact ⟨rfl, rfl, rfl⟩
  | timeout => right; left; exact ⟨rfl, rfl, rfl⟩
  | release => right; right; exact ⟨rfl, rfl, rfl⟩

variable {s t : State}

/-- What a step does: it makes a waiting call at the end of the chain, or changes the phase
of one call, resolving its promise unless the call is let in, or does nothing. -/
theorem step_cases (h : step s a = some t) :
  (a = .acquire ∧ t.calls = s.calls ++ [⟨s.tail, s.calls.length + 1, .waiting⟩] ∧
    t.tail = s.calls.length + 1 ∧ t.resolved = s.resolved) ∨
  (∃ i c p, Turn a i c.phase p ∧ s.calls[i]? = some c ∧ (p = .granted → c.previous ∈ s.resolved) ∧
    t.calls = s.calls.set i { c with phase := p } ∧ t.tail = s.tail ∧
    t.resolved = if p = .granted then s.resolved else c.own :: s.resolved) ∨
  (t = s ∧ grants [a] = [])
  := by
  cases a with
  | acquire =>
    cases h
    left
    exact ⟨rfl, rfl, rfl, rfl⟩
  | grant i =>
    right; left
    simp only [step] at h
    cases hc : s.calls[i]? with
    | none => simp [hc] at h
    | some c =>
    simp only [hc, Option.ite_none_right_eq_some, Option.some.injEq] at h
    obtain ⟨⟨hw, hp⟩, rfl⟩ := h
    use i, c, .granted
    exact ⟨hw ▸ Turn.grant i, hc, fun _ => hp, rfl, rfl, rfl⟩
  | timeout i =>
    simp only [step] at h
    cases hc : s.calls[i]? with
    | none => simp [hc] at h
    | some c =>
    simp only [hc] at h
    split at h
    · rename_i hw
      cases h
      right; left
      use i, c, .timedOut
      exact ⟨hw ▸ Turn.timeout i, hc, nofun, rfl, rfl, rfl⟩
    · cases h
      right; right
      exact ⟨rfl, rfl⟩
  | release i =>
  simp only [step] at h
  cases hc : s.calls[i]? with
  | none => simp [hc] at h
  | some c =>
  simp only [hc] at h
  split at h
  · rename_i hg
    cases h
    right; left
    use i, c, .released
    exact ⟨hg ▸ Turn.release i, hc, nofun, rfl, rfl, rfl⟩
  split at h
  · cases h
    right; right
    exact ⟨rfl, rfl⟩
  · cases h

/-- A call that was not made has no phase. -/
theorem State.phase_eq_none (h : s.calls.length ≤ i) :
  s.phase i = none
  := by
  rw [State.phase, List.getElem?_eq_none h]
  rfl

variable {c : Acquire}

/-- The phase of a call that was made is the one on record. -/
theorem State.phase_eq_some (hc : s.calls[i]? = some c) :
  s.phase i = some c.phase
  := by
  rw [State.phase, hc]
  rfl

/-- The phases after a call is made. -/
theorem phase_of_append (ht : t.calls = s.calls ++ [c]) (j : ℕ) :
  t.phase j = if j = s.calls.length then some c.phase else s.phase j
  := by
  split
  · next hj => simp [State.phase, ht, hj]
  rename_i hj
  rcases Nat.lt_or_gt_of_ne hj with hlt | hgt
  · simp only [State.phase, ht, List.getElem?_append_left hlt]
  · rw [State.phase_eq_none hgt.le, State.phase_eq_none]
    rw [ht, length_append, length_singleton]
    omega

/-- The phases after the phase of one call is changed. -/
theorem phase_of_set {p : Phase}
    (hc : s.calls[i]? = some c) (ht : t.calls = s.calls.set i { c with phase := p }) (j : ℕ) :
  t.phase j = if i = j then some p else s.phase j
  := by
  obtain ⟨hi, -⟩ := List.getElem?_eq_some_iff.mp hc
  simp only [State.phase, ht, List.getElem?_set, hi, if_true]
  split
  · rfl
  · rfl

/-! ### The chain of promises -/

/-- The chain is intact: call `i` waits for promise `i` and resolves promise `i + 1`, the
promise of the last call is the tail, and a resolved promise is that of no active call. -/
structure Linked (s : State) : Prop where
  tail : s.tail = s.calls.length
  previous : ∀ (i : ℕ) (c : Acquire), s.calls[i]? = some c → c.previous = i
  own : ∀ (i : ℕ) (c : Acquire), s.calls[i]? = some c → c.own = i + 1
  resolved : ∀ i, i + 1 ∈ s.resolved → i < s.calls.length ∧ ¬ s.Active i

theorem Linked.initial : Linked initial where
  tail := rfl
  previous _ _ h := by cases h
  own _ _ h := by cases h
  resolved _ h := by simp [TurnQueue.initial] at h

/-- Making a call at the end of the chain keeps the chain intact. -/
theorem Linked.append (hs : Linked s)
    (hcalls : t.calls = s.calls ++ [⟨s.tail, s.calls.length + 1, .waiting⟩])
    (htail : t.tail = s.calls.length + 1) (hres : t.resolved = s.resolved) :
  Linked t
  := by
  have hget : ∀ (i : ℕ) (c : Acquire), t.calls[i]? = some c →
      s.calls[i]? = some c ∨ (i = s.calls.length ∧ c = ⟨s.tail, s.calls.length + 1, .waiting⟩) := by
    intro i c hc
    rw [hcalls, List.getElem?_append] at hc
    split at hc
    · left
      apply hc
    right
    obtain ⟨hi, hget⟩ := List.getElem?_eq_some_iff.mp hc
    simp only [length_singleton] at hi
    constructor
    · omega
    · simpa using hget.symm
  constructor
  · rw [htail, hcalls, length_append, length_singleton]
  · intro i c hc
    rcases hget i c hc with hc | ⟨rfl, rfl⟩
    · apply hs.previous i c hc
    · apply hs.tail
  · intro i c hc
    rcases hget i c hc with hc | ⟨rfl, rfl⟩
    · apply hs.own i c hc
    · rfl
  intro i hi
  rw [hres] at hi
  obtain ⟨hlt, hact⟩ := hs.resolved i hi
  constructor
  · rw [hcalls, length_append]
    omega
  · rw [State.Active, phase_of_append hcalls, if_neg hlt.ne]
    apply hact

/-- Changing the phase of one call, and resolving its promise unless it is let in, keeps
the chain intact. -/
theorem Linked.turn {p : Phase}
    (hs : Linked s) (hturn : Turn a i c.phase p) (hc : s.calls[i]? = some c)
    (hcalls : t.calls = s.calls.set i { c with phase := p }) (htail : t.tail = s.tail)
    (hres : t.resolved = if p = .granted then s.resolved else c.own :: s.resolved) :
  Linked t
  := by
  have hget : ∀ (j : ℕ) (d : Acquire), t.calls[j]? = some d →
      ∃ e, s.calls[j]? = some e ∧ d.previous = e.previous ∧ d.own = e.own := by
    intro j d hd
    rw [hcalls] at hd
    by_cases hij : i = j
    · subst hij
      obtain ⟨hi, -⟩ := List.getElem?_eq_some_iff.mp hc
      rw [List.getElem?_set_self hi] at hd
      cases hd
      exact ⟨c, hc, rfl, rfl⟩
    · rw [List.getElem?_set_ne hij] at hd
      exact ⟨d, hd, rfl, rfl⟩
  have hlen : t.calls.length = s.calls.length := by
    rw [hcalls, length_set]
  constructor
  · rw [htail, hlen, hs.tail]
  · intro j d hd
    obtain ⟨e, he, hp, -⟩ := hget j d hd
    rw [hp, hs.previous j e he]
  · intro j d hd
    obtain ⟨e, he, -, ho⟩ := hget j d hd
    rw [ho, hs.own j e he]
  intro j hj
  obtain ⟨hi, -⟩ := List.getElem?_eq_some_iff.mp hc
  rw [hlen, State.Active, phase_of_set hc hcalls]
  have hcase : j + 1 ∈ s.resolved ∨ (j = i ∧ p ≠ .granted) := by
    rw [hres] at hj
    split at hj
    · left
      apply hj
    rename_i hp
    rcases mem_cons.mp hj with hj | hj
    · right
      rw [hs.own i c hc] at hj
      exact ⟨by omega, hp⟩
    · left
      apply hj
  rcases hcase with hj | ⟨rfl, hp⟩
  · obtain ⟨hlt, hact⟩ := hs.resolved j hj
    use hlt
    split
    · rename_i hij
      subst hij
      apply absurd _ hact
      rw [State.Active, State.phase_eq_some hc]
      simpa using hturn.from_active
    · apply hact
  use hi
  rw [if_pos rfl]
  rcases hturn.to_cases with ⟨-, -, rfl⟩ | ⟨-, -, rfl⟩ | ⟨-, -, rfl⟩
  · apply absurd rfl hp
  · simp
  · simp

/-- Every step keeps the chain intact. -/
theorem Linked.step (hs : Linked s) (h : step s a = some t) :
  Linked t
  := by
  rcases step_cases h with ⟨-, hcalls, htail, hres⟩ |
    ⟨i, c, p, hturn, hc, -, hcalls, htail, hres⟩ | ⟨rfl, -⟩
  · apply hs.append hcalls htail hres
  · apply hs.turn hturn hc hcalls htail hres
  · apply hs

/-! ### Runs in which nobody stands behind a waiter that gave up -/

/-- The active calls stand together and the holder stands before all of them: a call between
two active calls is active, and no call before one that was let in is active. -/
structure Contiguous (s : State) : Prop where
  between : ∀ i j k, i < k → k < j → s.Active i → s.Active j → s.Active k
  front : ∀ i j, i < j → s.phase j = some .granted ∨ s.phase j = some .released → ¬ s.Active i

theorem Contiguous.initial : Contiguous initial where
  between _ _ _ _ _ h := by rcases h with h | h <;> cases h
  front _ _ _ h := by rcases h with h | h <;> cases h

/-- A call that was made and is not active timed out or was released. -/
theorem State.settled_of_not_active (hi : i < s.calls.length) (h : ¬ s.Active i) :
  s.phase i = some .timedOut ∨ s.phase i = some .released
  := by
  rw [State.Active, State.phase_eq_some (List.getElem?_eq_getElem hi)] at h
  rw [State.phase_eq_some (List.getElem?_eq_getElem hi)]
  cases hp : s.calls[i].phase with
  | waiting | granted => simp [hp] at h
  | released => right; rfl
  | timedOut => left; rfl

/-- An active call was made. -/
theorem State.Active.lt (h : s.Active i) :
  i < s.calls.length
  := by
  by_contra hi
  rw [State.Active, State.phase_eq_none (by omega)] at h
  simp at h

/-- Making a call, not behind a waiter that gave up while an earlier call is active, keeps
the active calls together. -/
theorem Contiguous.append (hs : Contiguous s)
    (hok : Unhurried s .acquire) (hcalls : t.calls = s.calls ++ [c]) (hwait : c.phase = .waiting) :
  Contiguous t
  := by
  have hold : ∀ i < s.calls.length, (t.phase i = s.phase i) := by
    intro i hi
    rw [phase_of_append hcalls, if_neg hi.ne]
  have hnew : t.phase s.calls.length = some .waiting := by
    rw [phase_of_append hcalls, if_pos rfl, hwait]
  have hlen : t.calls.length = s.calls.length + 1 := by
    rw [hcalls, length_append, length_singleton]
  constructor
  · intro i j k hik hkj hi hj
    have hjt := hj.lt
    have hact : s.Active i := by
      rw [State.Active, ← hold i (by omega)]
      apply hi
    rw [State.Active, hold k (by omega)]
    rcases Nat.lt_or_ge j s.calls.length with hlt | hge
    · rw [State.Active, hold j hlt] at hj
      apply hs.between i j k hik hkj hact hj
    by_contra hk
    have hlast : s.Active (s.calls.length - 1) := by
      by_contra hlast
      rcases State.settled_of_not_active (by omega) hlast with htimed | hfreed
      · apply hok htimed i (by omega) hact
      · apply hs.front i (s.calls.length - 1) (by omega) (Or.inr hfreed) hact
    rcases Nat.lt_or_ge k (s.calls.length - 1) with hlt | hge'
    · apply hk (hs.between i _ k hik hlt hact hlast)
    · obtain rfl : k = s.calls.length - 1 := by omega
      apply hk hlast
  intro i j hij hj hi
  have hjt : j < s.calls.length := by
    by_contra hlt
    rcases Nat.lt_or_ge s.calls.length j with hgt | hle
    · rw [State.phase_eq_none (by omega)] at hj
      simp at hj
    · obtain rfl : j = s.calls.length := by omega
      simp [hnew] at hj
  rw [hold j hjt] at hj
  rw [State.Active, hold i (by omega)] at hi
  apply hs.front i j hij hj hi

/-- A waiting call whose promise is resolved has no active call before it. -/
theorem Contiguous.front_of_resolved (hs : Contiguous s)
    (hlink : Linked s) (hc : s.calls[i]? = some c) (hwait : c.phase = .waiting)
    (hres : c.previous ∈ s.resolved) :
  ∀ k < i, ¬ s.Active k
  := by
  intro k hk hact
  rw [hlink.previous i c hc] at hres
  obtain ⟨m, rfl⟩ : ∃ m, i = m + 1 := ⟨i - 1, by omega⟩
  obtain ⟨-, hm⟩ := hlink.resolved m hres
  apply hm
  rcases Nat.lt_or_ge k m with hlt | hge
  · apply hs.between k (m + 1) m hlt (Nat.lt_succ_self m) hact
    left
    rw [State.phase_eq_some hc, hwait]
  · obtain rfl : k = m := by omega
    apply hact

/-- Letting in a call whose promise is resolved keeps the active calls together. -/
theorem Contiguous.grant (hs : Contiguous s)
    (hlink : Linked s) (hc : s.calls[i]? = some c) (hwait : c.phase = .waiting)
    (hres : c.previous ∈ s.resolved)
    (hcalls : t.calls = s.calls.set i { c with phase := .granted }) :
  Contiguous t
  := by
  have hact : ∀ j, t.Active j ↔ s.Active j := by
    intro j
    rw [State.Active, phase_of_set hc hcalls]
    split
    · rename_i hij
      subst hij
      simp [State.Active, State.phase_eq_some hc, hwait]
    · rfl
  constructor
  · intro j k l hjl hlk hj hk
    rw [hact] at hj hk ⊢
    apply hs.between j k l hjl hlk hj hk
  intro j k hjk hk
  rw [hact]
  rw [phase_of_set hc hcalls] at hk
  split at hk
  · rename_i hik
    subst hik
    apply hs.front_of_resolved hlink hc hwait hres j hjk
  · apply hs.front j k hjk hk

/-- Settling a call behind which nobody waits, or the holder, keeps the active calls
together. -/
theorem Contiguous.settle {p : Phase} (hs : Contiguous s)
    (hc : s.calls[i]? = some c) (hcalls : t.calls = s.calls.set i { c with phase := p })
    (hp : p = .timedOut ∨ (c.phase = .granted ∧ p = .released))
    (hlast : p = .timedOut → ∀ j < s.calls.length, i < j → s.phase j ≠ some .waiting) :
  Contiguous t
  := by
  have hphase := phase_of_set hc hcalls
  have hact : ∀ j, t.Active j → s.Active j ∧ j ≠ i := by
    intro j hj
    rw [State.Active, hphase] at hj
    split at hj
    · rcases hp with rfl | ⟨-, rfl⟩ <;> simp at hj
    · next hij => exact ⟨hj, Ne.symm hij⟩
  constructor
  · intro j k l hjl hlk hj hk
    obtain ⟨hj, hji⟩ := hact j hj
    obtain ⟨hk, hki⟩ := hact k hk
    rw [State.Active, hphase]
    split
    · rename_i hil
      subst hil
      apply absurd hj
      rcases hp with rfl | ⟨hg, -⟩
      · rcases hk with hk | hk
        · apply absurd hk (hlast rfl k (State.Active.lt (Or.inl hk)) hlk)
        · apply hs.front j k (by omega) (Or.inl hk)
      · apply hs.front j i hjl
        left
        rw [State.phase_eq_some hc, hg]
    · apply hs.between j k l hjl hlk hj hk
  intro j k hjk hk hj
  obtain ⟨hj, -⟩ := hact j hj
  rw [hphase] at hk
  split at hk
  · rename_i hik
    subst hik
    rcases hp with rfl | ⟨hg, rfl⟩
    · simp at hk
    · apply hs.front j i hjk _ hj
      left
      rw [State.phase_eq_some hc, hg]
  · apply hs.front j k hjk hk hj

/-- Every step that meets the condition keeps the active calls together. -/
theorem Contiguous.step (hs : Contiguous s) (hlink : Linked s)
    (hok : Unhurried s a) (h : step s a = some t) :
  Contiguous t
  := by
  rcases step_cases h with ⟨rfl, hcalls, -, -⟩ | ⟨i, c, p, hturn, hc, hres, hcalls, -, -⟩ |
    ⟨rfl, -⟩
  · apply hs.append hok hcalls rfl
  · rcases hturn.to_cases with ⟨-, hw, rfl⟩ | ⟨rfl, -, rfl⟩ | ⟨-, hg, rfl⟩
    · apply hs.grant hlink hc hw (hres rfl) hcalls
    · apply hs.settle hc hcalls (Or.inl rfl)
      intro _
      apply hok
    · apply hs.settle hc hcalls (Or.inr ⟨hg, rfl⟩) nofun
  · apply hs

/-! ### The order of the calls -/

/-- A call was let in during the run exactly when it holds the queue or was released. -/
def Granted (as : List Action) (s : State) : Prop :=
  ∀ i, i ∈ grants as ↔ s.phase i = some .granted ∨ s.phase i = some .released

/-- The calls let in during a run followed by an action. -/
theorem grants_append (as : List Action) (a : Action) :
  grants (as ++ [a]) = grants as ++ grants [a]
  := by
  apply filterMap_append

variable {as : List Action}

/-- A step keeps the record of which calls were let in. -/
theorem Granted.step (hs : Granted as s) (h : step s a = some t) :
  Granted (as ++ [a]) t
  := by
  intro j
  rw [grants_append, mem_append, hs j]
  rcases step_cases h with ⟨rfl, hcalls, -, -⟩ | ⟨i, c, p, hturn, hc, -, hcalls, -, -⟩ |
    ⟨rfl, hnone⟩
  · rw [phase_of_append hcalls]
    split
    · next hj => simp [grants, State.phase_eq_none hj.ge]
    · simp [grants]
  · rw [phase_of_set hc hcalls]
    rcases hturn.to_cases with ⟨rfl, hw, rfl⟩ | ⟨rfl, hw, rfl⟩ | ⟨rfl, hg, rfl⟩
    · by_cases hij : i = j
      · simp [grants, hij]
      · simp [grants, hij, Ne.symm hij]
    · by_cases hij : i = j
      · subst hij
        simp [grants, State.phase_eq_some hc, hw]
      · simp [grants, hij]
    by_cases hij : i = j
    · subst hij
      simp [grants, State.phase_eq_some hc, hg]
    · simp [grants, hij]
  · simp [hnone]

/-- The calls let in so far stay in order when the next one is let in. -/
theorem pairwise_grants_step
    (hs : (grants as).Pairwise (· < ·)) (hgranted : Granted as s)
    (hcont : Contiguous s) (h : step s a = some t) :
  (grants (as ++ [a])).Pairwise (· < ·)
  := by
  rw [grants_append]
  rcases step_cases h with ⟨rfl, -⟩ | ⟨i, c, p, hturn, hc, hres, -⟩ | ⟨-, hnone⟩
  · simpa [grants] using hs
  · rcases hturn.to_cases with ⟨rfl, hw, rfl⟩ | ⟨rfl, -, -⟩ | ⟨rfl, -, -⟩
    · apply pairwise_append.mpr
      use hs, pairwise_singleton _ _
      intro k hk l hl
      obtain rfl : l = i := by simpa [grants] using hl
      rcases Nat.lt_trichotomy k l with hlt | rfl | hgt
      · apply hlt
      · have hphase := (hgranted k).mp hk
        simp [State.phase_eq_some hc, hw] at hphase
      · apply absurd _ (hcont.front l k hgt ((hgranted k).mp hk))
        left
        rw [State.phase_eq_some hc, hw]
    all_goals simpa [grants] using hs
  · simpa [hnone] using hs

/-- What a run in which nobody stands behind a waiter that gave up keeps. -/
structure Invariant (as : List Action) (s : State) : Prop where
  linked : Linked s
  contiguous : Contiguous s
  granted : Granted as s
  sorted : (grants as).Pairwise (· < ·)

theorem Invariant.initial : Invariant [] initial where
  linked := Linked.initial
  contiguous := Contiguous.initial
  granted _ := by simp [grants, State.phase, TurnQueue.initial]
  sorted := List.Pairwise.nil

theorem Invariant.step (hs : Invariant as s)
    (hok : Unhurried s a) (h : TurnQueue.step s a = some t) :
  Invariant (as ++ [a]) t
  where
    linked := hs.linked.step h
    contiguous := hs.contiguous.step hs.linked hok h
    granted := hs.granted.step h
    sorted := pairwise_grants_step hs.sorted hs.granted hs.contiguous h

/-- Where the active calls stand together behind the holder, the queue is a fair lock. -/
theorem Invariant.fair (hs : Invariant as s) :
  Fair as s
  := by
  constructor
  · intro i j hi hj
    rcases Nat.lt_trichotomy i j with hlt | heq | hgt
    · apply absurd (Or.inr hi) (hs.contiguous.front i j hlt (Or.inl hj))
    · apply heq
    · apply absurd (Or.inr hj) (hs.contiguous.front j i hgt (Or.inl hi))
  use hs.sorted
  intro j hj i hij
  have hphase := (hs.granted j).mp hj
  have hjt : j < s.calls.length := by
    by_contra hlt
    simp [State.phase_eq_none (Nat.le_of_not_lt hlt)] at hphase
  rcases State.settled_of_not_active (hij.trans hjt) (hs.contiguous.front i j hij hphase) with
    htimed | hfreed
  · right
    apply htimed
  · left
    apply (hs.granted i).mpr (Or.inr hfreed)

/-! ### The queue as a fair lock -/

/-- In every run in which no waiter gives up before another waiter and no call is made behind
a waiter that gave up while an earlier call is active, at every moment at most one call holds
the queue, and calls are let in in the order they were made, past none but calls that gave
up. -/
theorem fair_of_unhurried
    {as : List Action} {s : State} (hok : Guarded step Unhurried initial as)
    (hrun : run step initial as = some s) :
  Fair as s
  := by
  apply Invariant.fair
  apply Guarded.invariant_history _ Invariant.initial hok hrun
  intro past s a t hs hok h
  apply hs.step hok h

/-- A holder, a waiter that gives up after the holder is released, and a call made after
that. -/
theorem fair_of_unhurried_turns :
  ∃ s, run step initial
      [.acquire, .grant 0, .acquire, .timeout 1, .release 0, .acquire, .grant 2] = some s ∧
    Fair [.acquire, .grant 0, .acquire, .timeout 1, .release 0, .acquire, .grant 2] s
  := by
  refine ⟨_, rfl, fair_of_unhurried ?_ rfl⟩
  decide

/-- The queue is not a fair lock: a waiter that gives up while the queue is held lets the
next call in next to the holder. -/
theorem not_fair :
  ¬ ∀ as s, run step initial as = some s → Fair as s
  := by
  intro h
  have hfair := h [.acquire, .grant 0, .acquire, .timeout 1, .acquire, .grant 2] _ rfl
  have heq := hfair.exclusive 0 2 rfl rfl
  cases heq

end TurnQueue
