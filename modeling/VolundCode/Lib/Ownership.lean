import Mathlib.Logic.Function.Basic
import Mathlib.Tactic

/-!
# Files that have an owner

At a path there is a file or none. Files are numbered in the order in which they come there, and
somebody can own one of them. As long as nobody takes a file that is not at the path or that
another owns, and nobody removes or replaces a file that another owns, what somebody owns is what
is at the path (`Sole`), so that there is at most one owner (`Sole.eq`).
-/

namespace Ownership

open Function

variable {ι : Type*} {path : Option ℕ} {owned : ι → Option ℕ} {next : ℕ}

/-- What somebody owns is what is at the path, and nobody else owns it. -/
structure Sole (path : Option ℕ) (owned : ι → Option ℕ) (next : ℕ) : Prop where
  at_path : ∀ i n, owned i = some n → path = some n
  unique : ∀ i j n, owned i = some n → owned j = some n → i = j
  fresh : ∀ n, path = some n → n < next

namespace Sole

/-- Nothing is at the path, and nobody owns anything. -/
theorem empty :
  Sole none (fun _ : ι => none) next
  := by
  constructor
  · intro i n h
    contradiction
  · intro i j n h
    contradiction
  · intro n h
    contradiction

variable {n : ℕ} {i : ι}

/-- There is at most one owner. -/
theorem eq (h : Sole path owned next) {j : ι} {m : ℕ} (hi : owned i = some m)
    (hj : owned j = some n) :
  i = j
  := by
  have hmn : some m = some n := by rw [← h.at_path i m hi, h.at_path j n hj]
  obtain rfl := Option.some.inj hmn
  apply h.unique i j m hi hj

/-- Where nothing is at the path there is no owner. -/
theorem free (h : Sole none owned next) (i : ι) :
  owned i = none
  := by
  rw [Option.eq_none_iff_forall_ne_some]
  intro n hi
  have hpath := h.at_path i n hi
  contradiction

/-- Some give up what they own. -/
theorem restrict (h : Sole path owned next) {owned' : ι → Option ℕ}
    (howned : ∀ i n, owned' i = some n → owned i = some n) :
  Sole path owned' next
  := by
  constructor
  · intro i n hi
    apply h.at_path i n (howned i n hi)
  · intro i j n hi hj
    apply h.unique i j n (howned i n hi) (howned j n hj)
  · apply h.fresh

/-- What nobody owns is replaced. -/
theorem replace (h : Sole path owned next) (hfree : ∀ n, path = some n → ∀ j, owned j ≠ some n) :
  Sole (some next) owned (next + 1)
  := by
  have hnone (j : ι) (n : ℕ) : owned j ≠ some n := by
    intro hj
    apply hfree n (h.at_path j n hj) j hj
  constructor
  · intro j n hj
    exact absurd hj (hnone j n)
  · intro j k n hj
    exact absurd hj (hnone j n)
  · intro n hn
    cases hn
    apply Nat.lt_succ_self

/-- What nobody owns is removed. -/
theorem remove (h : Sole path owned next) (hfree : ∀ n, path = some n → ∀ j, owned j ≠ some n) :
  Sole none owned next
  := by
  constructor
  · intro j n hj
    exact absurd hj (hfree n (h.at_path j n hj) j)
  · apply h.unique
  · intro n hn
    contradiction

variable [DecidableEq ι]

/-- Somebody who owns nothing takes what is at the path and nobody owns. -/
theorem take (h : Sole path owned next) (hpath : path = some n) (hfree : ∀ j, owned j ≠ some n) :
  Sole path (Function.update owned i (some n)) next
  := by
  have howned (j : ι) (m : ℕ) (hj : Function.update owned i (some n) j = some m) : j = i ∧ m = n
      := by
    by_cases hij : j = i
    · subst hij
      rw [update_self] at hj
      use rfl, (Option.some.inj hj).symm
    rw [update_of_ne hij] at hj
    have hmn : some m = some n := by rw [← h.at_path j m hj, hpath]
    rw [hmn] at hj
    exact absurd hj (hfree j)
  constructor
  · intro j m hj
    rw [(howned j m hj).2]
    apply hpath
  · intro j k m hj hk
    rw [(howned j m hj).1, (howned k m hk).1]
  · apply h.fresh

/-- Somebody gives up what he owns. -/
theorem drop (h : Sole path owned next) (i : ι) :
  Sole path (Function.update owned i none) next
  := by
  apply h.restrict
  intro j m hj
  by_cases hij : j = i
  · subst hij
    rw [update_self] at hj
    contradiction
  · rw [update_of_ne hij] at hj
    apply hj

/-- Somebody creates a file where there is none. -/
theorem create (h : Sole none owned next) (i : ι) :
  Sole (some next) (Function.update owned i (some next)) (next + 1)
  := by
  have hreplaced : Sole (some next) owned (next + 1) := by
    apply h.replace
    intro n hn
    contradiction
  apply hreplaced.take rfl
  intro j hj
  rw [h.free j] at hj
  contradiction

/-- The owner of what is at the path removes it. -/
theorem release (h : Sole path owned next) (hi : owned i = some n) :
  Sole none (Function.update owned i none) next
  := by
  apply (h.drop i).remove
  intro m hm j hj
  have hpath := h.at_path i n hi
  by_cases hij : j = i
  · subst hij
    rw [update_self] at hj
    contradiction
  · rw [update_of_ne hij] at hj
    exact hij (h.eq hj hi)

end Sole

end Ownership
