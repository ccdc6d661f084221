import Mathlib

/-!
# Splitting and joining

A list is split at an element and joined with it again. The parts do not have the element
(`notMem_of_mem_splitOn`) and there is one part more than there are elements to split at
(`length_splitOn`).
-/

namespace Splitting

open List

variable {α : Type*} [DecidableEq α] {a : α}

/-- No part has the element. -/
theorem notMem_of_mem_splitOn {l p : List α} (h : p ∈ l.splitOn a) :
  a ∉ p
  := by
  induction l generalizing p with
  | nil =>
    rw [splitOn_nil, mem_singleton] at h
    rw [h]
    exact not_mem_nil
  | cons x l ih =>
  rw [splitOn_cons_eq_if_modifyHead] at h
  split_ifs at h with hx
  · rcases mem_cons.mp h with rfl | h
    · exact not_mem_nil
    · exact ih h
  obtain ⟨q, ps, hparts⟩ := exists_cons_of_ne_nil (splitOn_ne_nil a l)
  rw [hparts, modifyHead_cons] at h
  rcases mem_cons.mp h with rfl | h
  · have hq : a ∉ q := by
      apply ih
      rw [hparts]
      exact mem_cons_self
    rw [mem_cons, not_or]
    refine ⟨?_, hq⟩
    rintro rfl
    exact hx (beq_self_eq_true a)
  · apply ih
    rw [hparts]
    exact mem_cons_of_mem q h

/-- There is one part more than there are elements to split at. -/
theorem length_splitOn (l : List α) :
  (l.splitOn a).length = l.count a + 1
  := by
  induction l with
  | nil => rfl
  | cons x l ih =>
  rw [splitOn_cons_eq_if_modifyHead, count_cons]
  split_ifs with hx
  · rw [length_cons, ih]
  · rw [length_modifyHead, ih]

variable {ps : List (List α)}

omit [DecidableEq α] in
theorem intercalate_cons_cons {sep p q : List α} :
  sep.intercalate (p :: q :: ps) = p ++ (sep ++ sep.intercalate (q :: ps))
  := by
  simp [List.intercalate]

omit [DecidableEq α] in
/-- One part more at the end. -/
theorem intercalate_concat {sep p : List α} (h : ps ≠ []) :
  sep.intercalate (ps ++ [p]) = sep.intercalate ps ++ (sep ++ p)
  := by
  induction ps with
  | nil => exact absurd rfl h
  | cons q ps ih =>
  cases ps with
  | nil => simp [List.intercalate]
  | cons r ps =>
    rw [cons_append, cons_append, intercalate_cons_cons, ← cons_append,
      ih (cons_ne_nil r ps), intercalate_cons_cons, append_assoc,
      append_assoc]

omit [DecidableEq α] in
/-- What is joined has the separator and what is in the parts. -/
theorem mem_intercalate {b : α} (h : b ∈ [a].intercalate ps) :
  b = a ∨ ∃ p ∈ ps, b ∈ p
  := by
  induction ps with
  | nil => cases h
  | cons p ps ih =>
  cases ps with
  | nil =>
    right
    exact ⟨p, mem_cons_self, by simpa [List.intercalate] using h⟩
  | cons q ps =>
  rw [intercalate_cons_cons, mem_append, mem_append, mem_singleton] at h
  rcases h with h | rfl | h
  · exact Or.inr ⟨p, mem_cons_self, h⟩
  · exact Or.inl rfl
  · rcases ih h with rfl | ⟨r, hr, hb⟩
    · exact Or.inl rfl
    · exact Or.inr ⟨r, mem_cons_of_mem p hr, hb⟩

omit [DecidableEq α] in
/-- The length of what is joined. -/
theorem length_intercalate {ps : List (List α)} (h : ps ≠ []) :
  ([a].intercalate ps).length + 1 = (ps.map List.length).sum + ps.length
  := by
  induction ps with
  | nil => exact absurd rfl h
  | cons p ps ih =>
  cases ps with
  | nil => simp [List.intercalate]
  | cons q ps =>
  have hrest := ih (cons_ne_nil q ps)
  rw [intercalate_cons_cons, length_append, length_append, length_singleton,
    map_cons, sum_cons, length_cons]
  omega

/-- How often the separator is in what is joined. -/
theorem count_intercalate {ps : List (List α)} (h : ps ≠ []) :
  ([a].intercalate ps).count a + 1 = (ps.map (List.count a)).sum + ps.length
  := by
  induction ps with
  | nil => exact absurd rfl h
  | cons p ps ih =>
  cases ps with
  | nil => simp [List.intercalate]
  | cons q ps =>
  have hrest := ih (cons_ne_nil q ps)
  rw [intercalate_cons_cons, count_append, count_append, count_singleton_self,
    map_cons, sum_cons, length_cons]
  omega

omit [DecidableEq α] in
/-- Where a sum is not below another one, and no term is above its counterpart, they are equal. -/
theorem eq_of_sum_le {β : Type*} {l : List β} {f g : β → ℕ} (h : ∀ x ∈ l, f x ≤ g x)
    (hsum : (l.map g).sum ≤ (l.map f).sum) :
  ∀ x ∈ l, f x = g x
  := by
  induction l with
  | nil => exact forall_mem_nil _
  | cons y l ih =>
  have hle : (l.map f).sum ≤ (l.map g).sum := sum_le_sum fun x hx => h x (mem_cons_of_mem y hx)
  have hy := h y mem_cons_self
  rw [map_cons, map_cons, sum_cons, sum_cons] at hsum
  rw [forall_mem_cons]
  refine ⟨by omega, ih (fun x hx => h x (mem_cons_of_mem y hx)) (by omega)⟩

end Splitting
