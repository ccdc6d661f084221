import Mathlib.Data.List.Basic
import Mathlib.Order.Lattice

/-!
# Longest common subsequences

`Longest a b n` says that `n` is the length of a longest common subsequence of `a` and `b`. The
rules here are those of the table of the algorithm (`Longest.cons`, `Longest.cons_of_ne`), and those
that take away what the two lists have in common at their beginning and at their end
(`Longest.append_left`, `Longest.append_right`).
-/

namespace CommonSubsequence

variable {α : Type*}

/-- The length of a longest common subsequence. -/
structure Longest (a b : List α) (n : ℕ) : Prop where
  reached : ∃ c : List α, c.Sublist a ∧ c.Sublist b ∧ c.length = n
  bound : ∀ c : List α, c.Sublist a → c.Sublist b → c.length ≤ n

namespace Longest

variable {a b : List α} {n : ℕ}

theorem unique {m : ℕ} (hn : Longest a b n) (hm : Longest a b m) :
  n = m
  := by
  obtain ⟨c, hca, hcb, rfl⟩ := hn.reached
  obtain ⟨d, hda, hdb, rfl⟩ := hm.reached
  apply le_antisymm
  · apply hm.bound c hca hcb
  · apply hn.bound d hda hdb

theorem nil_left (b : List α) :
  Longest [] b 0
  := by
  constructor
  · use []
    simp
  · intro c hc _
    simp [List.sublist_nil.mp hc]

theorem symm (h : Longest a b n) :
  Longest b a n
  := by
  obtain ⟨c, hca, hcb, hc⟩ := h.reached
  constructor
  · use c
  · intro d hdb hda
    apply h.bound d hda hdb

theorem nil_right (a : List α) :
  Longest a [] 0
  := (nil_left a).symm

/-- A common first element is one more. -/
theorem cons (x : α) (h : Longest a b n) :
  Longest (x :: a) (x :: b) (n + 1)
  := by
  constructor
  · obtain ⟨c, hca, hcb, hc⟩ := h.reached
    use x :: c
    simp [hca, hcb, hc]
  intro c hca hcb
  have htail : c.tail.length ≤ n := h.bound c.tail hca.tail hcb.tail
  rw [List.length_tail] at htail
  omega

/-- Of two different first elements, one is not taken. -/
theorem cons_of_ne {x y : α} {m : ℕ} (hne : x ≠ y)
    (hn : Longest a (y :: b) n) (hm : Longest (x :: a) b m) :
  Longest (x :: a) (y :: b) (max n m)
  := by
  constructor
  · rcases le_total n m with hle | hle
    · obtain ⟨c, hca, hcb, hc⟩ := hm.reached
      use c
      rw [max_eq_right hle]
      exact ⟨hca, hcb.cons y, hc⟩
    obtain ⟨c, hca, hcb, hc⟩ := hn.reached
    use c
    rw [max_eq_left hle]
    exact ⟨hca.cons x, hcb, hc⟩
  intro c hca hcb
  cases hca with
  | cons _ hca =>
    apply le_trans (hn.bound c hca hcb)
    apply le_max_left
  | cons_cons _ hca =>
  cases hcb with
  | cons _ hcb =>
    apply le_trans (hm.bound _ (hca.cons_cons x) hcb)
    apply le_max_right
  | cons_cons _ hcb => contradiction

/-- A common beginning is part of a longest common subsequence. -/
theorem append_left (front : List α) (h : Longest a b n) :
  Longest (front ++ a) (front ++ b) (front.length + n)
  := by
  induction front with
  | nil => simpa using h
  | cons x front ih =>
    rw [List.length_cons, Nat.add_right_comm]
    apply ih.cons x

theorem reverse (h : Longest a b n) :
  Longest a.reverse b.reverse n
  := by
  constructor
  · obtain ⟨c, hca, hcb, hc⟩ := h.reached
    use c.reverse
    rw [List.length_reverse]
    exact ⟨hca.reverse, hcb.reverse, hc⟩
  intro c hca hcb
  rw [← List.length_reverse]
  apply h.bound
  · simpa using hca.reverse
  · simpa using hcb.reverse

/-- A common end is part of a longest common subsequence. -/
theorem append_right (back : List α) (h : Longest a b n) :
  Longest (a ++ back) (b ++ back) (n + back.length)
  := by
  have hreverse := (h.reverse.append_left back.reverse).reverse
  rw [List.reverse_append, List.reverse_append] at hreverse
  simpa [Nat.add_comm] using hreverse

theorem le_length_left (h : Longest a b n) :
  n ≤ a.length
  := by
  obtain ⟨c, hca, _, rfl⟩ := h.reached
  exact hca.length_le

end Longest

end CommonSubsequence
