import Mathlib.Data.List.Basic
import Mathlib.Logic.Function.Basic

/-!
# Promises under keys

A table of promises that wait under their keys until they are settled, as a client keeps its
requests. Every promise keeps the list of its settlements, so that nothing hides a second one. As
long as no promise is put under a key that is taken, every promise waits under its own key and has
no settlement, or it has one (`Sound`), whatever is settled in which order.
-/

namespace Promises

open List Function

universe u v

/-- A promise: the key under which it has waited, and its settlements. -/
structure Promise (K : Type u) (V : Type v) where
  key : K
  settled : List V

/-- The promises, and which of them waits under a key. -/
structure Table (K : Type u) (V : Type v) where
  pending : K → Option ℕ
  promises : List (Promise K V)

variable {K : Type u} {V : Type v}

namespace Table

/-- A table without promises. -/
def empty : Table K V where
  pending _ := none
  promises := []

/-- All that waits is settled. -/
def settleAll (t : Table K V) (v : V) : Table K V where
  pending _ := none
  promises := t.promises.mapIdx fun n p =>
    if t.pending p.key = some n then { p with settled := p.settled ++ [v] } else p

/-- Every promise waits under its key and has no settlement, or it has one that fits the key. -/
structure Sound (fits : ℕ → K → V → Prop) (t : Table K V) : Prop where
  pending : ∀ k n, t.pending k = some n → ∃ p, t.promises[n]? = some p ∧ p.key = k
  waiting : ∀ n p, t.promises[n]? = some p → t.pending p.key = some n → p.settled = []
  settled : ∀ n p, t.promises[n]? = some p → t.pending p.key ≠ some n →
    ∃ v, p.settled = [v] ∧ fits n p.key v

variable {fits fits' : ℕ → K → V → Prop} {t : Table K V} {k l : K} {n : ℕ} {v : V}
  {p : Promise K V}

theorem sound_empty :
  Sound fits (empty : Table K V)
  := by
  constructor
  · intro k n h
    cases h
  all_goals
    intro n p h
    simp [empty] at h

theorem Sound.imp (h : t.Sound fits) (himp : ∀ n k v, n < t.promises.length →
    fits n k v → fits' n k v) :
  t.Sound fits'
  := by
  constructor
  · apply h.pending
  · apply h.waiting
  intro n p hp hne
  obtain ⟨v, hv, hfits⟩ := h.settled n p hp hne
  use v, hv
  apply himp n p.key v (List.getElem?_eq_some_iff.mp hp).1 hfits

/-- What waits has been put there before. -/
theorem Sound.lt_length (h : t.Sound fits) (hn : t.pending k = some n) :
  n < t.promises.length
  := by
  obtain ⟨p, hp, -⟩ := h.pending k n hn
  apply (List.getElem?_eq_some_iff.mp hp).1

/-- A promise that is not settled waits under its key. -/
theorem Sound.settled_eq_nil_iff (h : t.Sound fits) (hp : t.promises[n]? = some p) :
  p.settled = [] ↔ t.pending p.key = some n
  := by
  constructor
  · intro hnil
    by_contra hn
    obtain ⟨v, hv, -⟩ := h.settled n p hp hn
    rw [hnil] at hv
    cases hv
  · apply h.waiting n p hp

/-- All that waits is settled with something that fits every key. -/
theorem Sound.settleAll (h : t.Sound fits) (hv : ∀ n k, t.pending k = some n → fits n k v) :
  (t.settleAll v).Sound fits
  := by
  unfold Table.settleAll
  constructor
  · intro k n hk
    cases hk
  · intro n p hp hn
    cases hn
  intro n p hp _
  dsimp only at hp
  rw [List.getElem?_mapIdx] at hp
  obtain ⟨p', hp', rfl⟩ := Option.map_eq_some_iff.mp hp
  by_cases hn : t.pending p'.key = some n
  · rw [if_pos hn]
    refine ⟨v, ?_, hv n p'.key hn⟩
    rw [h.waiting n p' hp' hn, nil_append]
  · rw [if_neg hn]
    apply h.settled n p' hp' hn

@[simp]
theorem length_settleAll :
  (t.settleAll v).promises.length = t.promises.length
  := length_mapIdx

/-- A promise that is settled from the start. -/
def addSettled (t : Table K V) (k : K) (v : V) : Table K V :=
  { t with promises := t.promises ++ [⟨k, [v]⟩] }

/-- A promise that is settled from the start with something that fits its key. -/
theorem Sound.addSettled (h : t.Sound fits) (hv : fits t.promises.length k v) :
  (t.addSettled k v).Sound fits
  := by
  have hcases : ∀ {n p}, (t.promises ++ [⟨k, [v]⟩])[n]? = some p →
      t.promises[n]? = some p ∨ n = t.promises.length ∧ p = ⟨k, [v]⟩ := by
    intro n p hp
    rcases Nat.lt_or_ge n t.promises.length with hn | hn
    · rw [List.getElem?_append_left hn] at hp
      exact .inl hp
    obtain ⟨hlt, -⟩ := List.getElem?_eq_some_iff.mp hp
    rw [length_append, length_singleton] at hlt
    obtain rfl : n = t.promises.length := by omega
    rw [List.getElem?_concat_length] at hp
    exact .inr ⟨rfl, (Option.some.inj hp).symm⟩
  constructor
  · intro l n hl
    obtain ⟨p, hp, hkey⟩ := h.pending l n hl
    use p
    constructor
    · rw [← hp]
      apply List.getElem?_append_left (h.lt_length hl)
    · apply hkey
  · intro n p hp hn
    rcases hcases hp with hp | ⟨rfl, rfl⟩
    · apply h.waiting n p hp hn
    · apply absurd (h.lt_length hn) (Nat.lt_irrefl _)
  intro n p hp hn
  rcases hcases hp with hp | ⟨rfl, rfl⟩
  · apply h.settled n p hp hn
  · use v, rfl

section Keys

variable [DecidableEq K]

/-- A new promise. -/
def add (t : Table K V) (k : K) : Table K V where
  pending := Function.update t.pending k (some t.promises.length)
  promises := t.promises ++ [⟨k, []⟩]

/-- What waits under a key is forgotten. -/
def delete (t : Table K V) (k : K) : Table K V :=
  { t with pending := Function.update t.pending k none }

/-- What waits under a key is settled. -/
def settle (t : Table K V) (k : K) (v : V) : Table K V :=
  match t.pending k with
  | none => t
  | some n =>
    { pending := Function.update t.pending k none
      promises := t.promises.modify n fun p => { p with settled := p.settled ++ [v] } }

theorem pending_add_self :
  (t.add k).pending k = some t.promises.length
  := Function.update_self ..

theorem pending_add_of_ne (h : l ≠ k) :
  (t.add k).pending l = t.pending l
  := Function.update_of_ne h _ _

/-- A new promise under a key that is free. -/
theorem Sound.add (h : t.Sound fits) (hk : t.pending k = none) :
  (t.add k).Sound fits
  := by
  have hold : ∀ {l n}, t.pending l = some n →
      l ≠ k ∧ (t.promises ++ [⟨k, []⟩])[n]? = t.promises[n]? := by
    intro l n hl
    constructor
    · rintro rfl
      rw [hk] at hl
      cases hl
    · apply List.getElem?_append_left (h.lt_length hl)
  have hcases : ∀ {n p}, (t.promises ++ [⟨k, []⟩])[n]? = some p →
      t.promises[n]? = some p ∧ n ≠ t.promises.length ∨ n = t.promises.length ∧ p = ⟨k, []⟩ := by
    intro n p hp
    rcases Nat.lt_or_ge n t.promises.length with hn | hn
    · rw [List.getElem?_append_left hn] at hp
      exact .inl ⟨hp, Nat.ne_of_lt hn⟩
    obtain ⟨hlt, -⟩ := List.getElem?_eq_some_iff.mp hp
    rw [length_append, length_singleton] at hlt
    obtain rfl : n = t.promises.length := by omega
    rw [List.getElem?_concat_length] at hp
    exact .inr ⟨rfl, (Option.some.inj hp).symm⟩
  constructor
  · intro l n hl
    rcases eq_or_ne l k with rfl | hne
    · rw [pending_add_self] at hl
      cases hl
      use ⟨l, []⟩, List.getElem?_concat_length
    rw [pending_add_of_ne hne] at hl
    obtain ⟨p, hp, hkey⟩ := h.pending l n hl
    use p
    constructor
    · rw [← hp]
      apply (hold hl).2
    · apply hkey
  · intro n p hp hn
    rcases hcases hp with ⟨hp, hne⟩ | ⟨-, rfl⟩
    · rcases eq_or_ne p.key k with hkey | hkey
      · rw [hkey, pending_add_self] at hn
        apply absurd (Option.some.inj hn).symm hne
      · rw [pending_add_of_ne hkey] at hn
        apply h.waiting n p hp hn
    · rfl
  intro n p hp hn
  rcases hcases hp with ⟨hp, hne⟩ | ⟨rfl, rfl⟩
  · apply h.settled n p hp
    intro hpend
    rw [pending_add_of_ne (hold hpend).1] at hn
    apply hn hpend
  · apply absurd pending_add_self hn

/-- What waits under a key is settled with something that fits it. -/
theorem Sound.settle (h : t.Sound fits) (hv : ∀ n, t.pending k = some n → fits n k v) :
  (t.settle k v).Sound fits
  := by
  unfold Table.settle
  split
  · apply h
  next m hm =>
    obtain ⟨q, hq, hkey⟩ := h.pending k m hm
    have hother : ∀ {n p}, t.promises[n]? = some p → n ≠ m →
        (Function.update t.pending k none p.key = some n ↔ t.pending p.key = some n) := by
      intro n p hp hne
      rcases eq_or_ne p.key k with hk | hk
      · rw [hk, update_self, hm]
        constructor
        · intro hnone
          cases hnone
        · intro hsome
          apply absurd (Option.some.inj hsome).symm hne
      · rw [update_of_ne hk]
    constructor
    · intro l n hl
      dsimp only at hl ⊢
      rcases eq_or_ne l k with rfl | hne
      · rw [update_self] at hl
        cases hl
      rw [update_of_ne hne] at hl
      obtain ⟨p, hp, hl'⟩ := h.pending l n hl
      rw [List.getElem?_modify, hp]
      refine ⟨_, rfl, ?_⟩
      dsimp only
      split
      all_goals apply hl'
    · intro n p hp hn
      dsimp only at hp hn
      rw [List.getElem?_modify] at hp
      obtain ⟨p', hp', rfl⟩ := Option.map_eq_some_iff.mp hp
      by_cases hmn : m = n
      · subst hmn
        rw [hq] at hp'
        cases hp'
        simp [hkey] at hn
      · rw [if_neg hmn] at hn ⊢
        apply h.waiting n p' hp'
        apply (hother hp' (Ne.symm hmn)).mp hn
    intro n p hp hn
    dsimp only at hp hn
    rw [List.getElem?_modify] at hp
    obtain ⟨p', hp', rfl⟩ := Option.map_eq_some_iff.mp hp
    by_cases hmn : m = n
    · subst hmn
      rw [hq] at hp'
      cases hp'
      rw [if_pos rfl]
      refine ⟨v, ?_, ?_⟩
      · dsimp only
        rw [h.waiting m q hq (hkey ▸ hm), nil_append]
      · dsimp only
        rw [hkey]
        apply hv m hm
    rw [if_neg hmn] at hn ⊢
    apply h.settled n p' hp'
    intro hpend
    apply hn
    apply (hother hp' (Ne.symm hmn)).mpr hpend

/-- Under the key of what has been settled nothing waits. -/
theorem pending_settle_self :
  (t.settle k v).pending k = none
  := by
  unfold Table.settle
  split
  next h => apply h
  · apply update_self

/-- Nothing new waits when something is settled. -/
theorem pending_settle_cases (t : Table K V) (k l : K) (v : V) :
  (t.settle k v).pending l = none ∨ (t.settle k v).pending l = t.pending l
  := by
  unfold Table.settle
  split
  · right
    rfl
  rcases eq_or_ne l k with rfl | hne
  · left
    apply update_self
  · right
    apply update_of_ne hne

theorem pending_settle_of_ne (h : l ≠ k) :
  (t.settle k v).pending l = t.pending l
  := by
  unfold Table.settle
  split
  · rfl
  · apply update_of_ne h

@[simp]
theorem length_settle :
  (t.settle k v).promises.length = t.promises.length
  := by
  unfold Table.settle
  split
  · rfl
  · apply length_modify

@[simp]
theorem length_add :
  (t.add k).promises.length = t.promises.length + 1
  := by
  unfold Table.add
  rw [length_append, length_singleton]

end Keys

end Table

end Promises
