import Mathlib.Algebra.Order.Group.Defs
import Mathlib.Data.List.Basic

/-!
# Limits in a sliding window

A limiter keeps the times at which it has admitted something, and forgets those that are a window
or more ago when it is asked again. It admits when fewer than a number of times are left. If its
clock does not run backwards, no half-open window of that width holds more times than the number
(`Kept.bounded`), however the window lies.
-/

namespace SlidingWindow

open List

variable {α : Type*} [AddCommGroup α] [LinearOrder α]

/-- The times that are less than a window before `now`. -/
def recent (width now : α) (times : List α) : List α :=
  times.filter fun t => now - t < width

/-- What the limiter keeps when it admits at `now`, unless it refuses. -/
def accept (width : α) (limit : ℕ) (now : α) (times : List α) : Option (List α) :=
  let kept := recent width now times
  if limit ≤ kept.length then none else some (kept ++ [now])

/-- The times in the half-open window that begins at `start`. -/
def within (width start : α) (times : List α) : List α :=
  times.filter fun t => start ≤ t ∧ t < start + width

/-- A limiter has admitted at the times `admitted`, keeps `times`, and its clock stands at `now`. -/
structure Kept (width : α) (limit : ℕ) (admitted times : List α) (now : α) : Prop where
  past : ∀ t ∈ admitted, t ≤ now
  /-- Whatever is recent from now on is kept. -/
  recent_eq : ∀ later, now ≤ later → recent width later times = recent width later admitted
  /-- No window holds more than the limit. -/
  bounded : ∀ start, (within width start admitted).length ≤ limit

variable {width now later : α} {limit : ℕ} {admitted times times' : List α}

/-- A limiter that has admitted nothing. -/
theorem Kept.nil (width now : α) (limit : ℕ) :
  Kept width limit [] [] now
  := by
  constructor
  · intro t ht
    simp at ht
  · intro later _
    rfl
  · intro start
    simp [within]

/-- Time passes. -/
theorem Kept.mono (h : Kept width limit admitted times now) (hlater : now ≤ later) :
  Kept width limit admitted times later
  := by
  constructor
  · intro t ht
    apply le_trans (h.past t ht) hlater
  · intro l hl
    apply h.recent_eq l (le_trans hlater hl)
  · apply h.bounded

variable [IsOrderedAddMonoid α]

/-- What is recent later is recent now. -/
theorem recent_recent (hlater : now ≤ later) (times : List α) :
  recent width later (recent width now times) = recent width later times
  := by
  unfold recent
  rw [filter_filter]
  apply filter_congr
  intro t _
  rw [← Bool.decide_and, decide_eq_decide, and_iff_left_iff_imp]
  intro h
  apply lt_of_le_of_lt _ h
  apply sub_le_sub_right hlater

/-- The window that holds `now` holds only what is recent, and `now`. -/
theorem within_concat_length (start : α) :
  (within width start (admitted ++ [now])).length ≤
    max (within width start admitted).length ((recent width now admitted).length + 1)
  := by
  unfold within recent
  rw [filter_append, length_append]
  by_cases hnow : start ≤ now ∧ now < start + width
  · apply le_max_of_le_right
    apply Nat.add_le_add
    · apply Sublist.length_le
      apply monotone_filter_right
      intro t ht
      rw [decide_eq_true_eq] at ht ⊢
      rw [sub_lt_iff_lt_add']
      apply lt_of_lt_of_le hnow.2
      apply add_le_add_left ht.1
    · apply length_filter_le
  · apply le_max_of_le_left
    rw [filter_cons_of_neg (by simpa using hnow), filter_nil, length_nil, Nat.add_zero]

/-- What is admitted now. -/
theorem Kept.concat (h : Kept width limit admitted times now) (hlater : now ≤ later)
    (haccept : accept width limit later times = some times') :
  Kept width limit (admitted ++ [later]) times' later
  := by
  unfold SlidingWindow.accept at haccept
  dsimp only at haccept
  split at haccept
  · cases haccept
  next hlimit =>
    cases haccept
    have hpast := (h.mono hlater).past
    constructor
    · intro t ht
      rcases mem_append.mp ht with ht | ht
      · apply hpast t ht
      · obtain rfl := mem_singleton.mp ht
        apply le_refl
    · intro l hl
      have hkept := h.recent_eq l (le_trans hlater hl)
      have hforget : recent width l (recent width later times) = recent width l times :=
        recent_recent hl times
      unfold recent at hkept hforget ⊢
      rw [filter_append, filter_append, hforget, hkept]
    intro start
    apply le_trans (within_concat_length start)
    apply max_le (h.bounded start)
    rw [← h.recent_eq later hlater]
    apply Nat.lt_of_not_le hlimit

end SlidingWindow
