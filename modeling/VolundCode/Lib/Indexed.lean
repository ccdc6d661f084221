import Mathlib.Data.List.Basic

/-!
# Lists of parties

A system with any number of parties keeps them in a list, each under its index. What holds of every
party under its index is kept when one of them is changed (`Each.set`) and when one more comes
(`Each.concat`).
-/

namespace Indexed

variable {α : Type*} {P Q : ℕ → α → Prop} {l : List α} {i : ℕ} {a : α}

/-- Every element has the property under its index. -/
def Each (P : ℕ → α → Prop) (l : List α) : Prop :=
  ∀ i a, l[i]? = some a → P i a

theorem Each.nil :
  Each P []
  := by
  intro i a h
  simp at h

theorem Each.imp (h : Each P l) (himp : ∀ i a, P i a → Q i a) :
  Each Q l
  := by
  intro i a ha
  apply himp i a (h i a ha)

/-- One element is changed. -/
theorem Each.set (h : Each P l) (ha : P i a) :
  Each P (l.set i a)
  := by
  intro j b hb
  rw [List.getElem?_set] at hb
  split at hb
  next heq =>
    subst heq
    split at hb
    · cases hb
      apply ha
    · cases hb
  · apply h j b hb

/-- One more element comes. -/
theorem Each.concat (h : Each P l) (ha : P l.length a) :
  Each P (l ++ [a])
  := by
  intro j b hb
  rw [List.getElem?_append] at hb
  split at hb
  · apply h j b hb
  next hlt =>
    obtain ⟨hlast, hb⟩ := List.getElem?_eq_some_iff.mp hb
    rw [List.length_singleton, Nat.lt_one_iff] at hlast
    have hj : j = l.length := Nat.le_antisymm (Nat.le_of_sub_eq_zero hlast) (Nat.le_of_not_lt hlt)
    subst hj
    simp only [hlast, List.getElem_cons_zero] at hb
    subst hb
    apply ha

end Indexed
