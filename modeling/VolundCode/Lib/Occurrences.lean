import Mathlib.Data.List.Basic
import Mathlib.Data.List.Infix

/-!
# Occurrences of a list in a list

The positions at which a list is found in another one, from left to right and without overlaps, as
the matches of a literal expression are. The empty list is found at every position. A list is cut
where another one is found first (`cut_eq_some`, `cut_eq_none_iff`), and split at a list that is not
empty wherever it is found (`split_eq`).
-/

namespace Occurrences

open List

variable {α : Type*} [DecidableEq α]

/-- The positions from `i` on at which the pattern is found, after so many that are passed over. -/
def positionsFrom (pattern : List α) (i skip : ℕ) : List α → List ℕ
  | [] => if pattern = [] then [i] else []
  | x :: rest =>
    if skip = 0 ∧ pattern <+: x :: rest then
      i :: positionsFrom pattern (i + 1) (pattern.length - 1) rest
    else positionsFrom pattern (i + 1) (skip - 1) rest

/-- The positions at which the pattern is found. -/
def positions (pattern l : List α) : List ℕ :=
  positionsFrom pattern 0 0 l

variable {l pattern : List α}

theorem exists_of_mem_positionsFrom {i skip p : ℕ} (h : p ∈ positionsFrom pattern i skip l) :
  ∃ k, p = i + k ∧ pattern <+: l.drop k
  := by
  induction l generalizing i skip with
  | nil =>
    rw [positionsFrom] at h
    split_ifs at h with hpattern
    · rw [mem_singleton] at h
      use 0
      rw [hpattern]
      refine ⟨h, nil_prefix⟩
    · cases h
  | cons x rest ih =>
  have hrest {skip : ℕ} (h : p ∈ positionsFrom pattern (i + 1) skip rest) :
      ∃ k, p = i + k ∧ pattern <+: (x :: rest).drop k := by
    obtain ⟨k, hp, hk⟩ := ih h
    use k + 1
    rw [drop_succ_cons]
    refine ⟨?_, hk⟩
    rw [hp]
    omega
  rw [positionsFrom] at h
  split_ifs at h with hmatch
  · rcases mem_cons.mp h with rfl | h
    · use 0
      refine ⟨rfl, hmatch.2⟩
    · apply hrest h
  · apply hrest h

/-- The pattern is at the positions at which it is found. -/
theorem prefix_of_mem_positions {p : ℕ} (h : p ∈ positions pattern l) :
  pattern <+: l.drop p
  := by
  obtain ⟨k, rfl, hk⟩ := exists_of_mem_positionsFrom h
  rw [Nat.zero_add]
  apply hk

/-- A pattern is not found where its first element is not. -/
theorem positionsFrom_append {c : α} (h : c ∉ l) (i skip : ℕ) (rest : List α) :
  positionsFrom (c :: pattern) i skip (l ++ rest) =
    positionsFrom (c :: pattern) (i + l.length) (skip - l.length) rest
  := by
  induction l generalizing i skip with
  | nil => rfl
  | cons x l ih =>
  rw [mem_cons, not_or] at h
  have hstart : ¬ (skip = 0 ∧ c :: pattern <+: x :: (l ++ rest)) := by
    rintro ⟨-, hpre⟩
    apply h.1 (cons_prefix_cons.mp hpre).1
  rw [cons_append, positionsFrom, if_neg hstart, ih h.2, length_cons]
  congr 1
  · omega
  · omega

/-- A pattern is not found in a list without its first element. -/
theorem positionsFrom_of_not_mem {c : α} (h : c ∉ l) (i skip : ℕ) :
  positionsFrom (c :: pattern) i skip l = []
  := by
  rw [← append_nil l, positionsFrom_append h, positionsFrom, if_neg (cons_ne_nil c _)]

/-- Of two brackets, the one in front starts the first pattern, and the one behind the second. -/
theorem positions_enclosed (name : List α) {c : α} {inside closing : List α} (hinside : c ∉ inside)
    (hclosing : c ∉ closing) :
  (name <+: inside → ¬ name <+: closing →
    positions (c :: name) (c :: (inside ++ c :: closing)) = [0]) ∧
  (¬ closing <+: inside ++ c :: closing →
    positions (c :: closing) (c :: (inside ++ c :: closing)) = [1 + inside.length])
  := by
  constructor
  · intro hstart hend
    have hpre := (prefix_cons_inj c).mpr (hstart.trans (prefix_append inside (c :: closing)))
    have hother : ¬ c :: name <+: c :: closing := fun h => hend ((prefix_cons_inj c).mp h)
    rw [positions, positionsFrom, if_pos ⟨rfl, hpre⟩, positionsFrom_append hinside,
      positionsFrom, if_neg fun h => hother h.2, positionsFrom_of_not_mem hclosing]
  · intro hend
    have hstart : ¬ c :: closing <+: c :: (inside ++ c :: closing) :=
      fun h => hend ((prefix_cons_inj c).mp h)
    rw [positions, positionsFrom, if_neg fun h => hstart h.2, positionsFrom_append hinside,
      positionsFrom, if_pos ⟨by omega, prefix_rfl⟩, positionsFrom_of_not_mem hclosing, Nat.zero_add]
/-! ### Cutting -/

/-- What is before the first place of the pattern, and what is after it. -/
def cut (pattern : List α) : List α → Option (List α × List α)
  | [] => if pattern = [] then some ([], []) else none
  | x :: rest =>
    if pattern <+: x :: rest then some ([], (x :: rest).drop pattern.length)
    else (cut pattern rest).map fun p => (x :: p.1, p.2)

/-- The pattern is where the list is cut, and not before. -/
theorem cut_eq_some {before after : List α} (h : cut pattern l = some (before, after)) :
  l = before ++ pattern ++ after ∧
    ∀ before' after', l = before' ++ pattern ++ after' → before.length ≤ before'.length
  := by
  induction l generalizing before with
  | nil =>
    rw [cut] at h
    split_ifs at h with hpattern
    cases h
    rw [hpattern]
    exact ⟨rfl, fun _ _ _ => Nat.zero_le _⟩
  | cons x rest ih =>
  rw [cut] at h
  split_ifs at h with hstart
  · cases h
    obtain ⟨tail, htail⟩ := hstart
    rw [← htail, drop_left]
    exact ⟨rfl, fun _ _ _ => Nat.zero_le _⟩
  rw [Option.map_eq_some_iff] at h
  obtain ⟨⟨before', after'⟩, hcut, heq⟩ := h
  obtain ⟨rfl, rfl⟩ := Prod.mk.inj heq
  obtain ⟨hrest, hfirst⟩ := ih hcut
  constructor
  · rw [hrest]
    rfl
  intro before'' after'' heq'
  cases before'' with
  | nil =>
    exfalso
    apply hstart
    rw [heq', nil_append]
    apply prefix_append
  | cons y before'' =>
  rw [cons_append, cons_append] at heq'
  have hle := hfirst before'' after'' (List.cons.inj heq').2
  dsimp only
  rw [length_cons, length_cons]
  omega

/-- A list that is not cut does not have the pattern in it. -/
theorem cut_eq_none_iff :
  cut pattern l = none ↔ ¬ pattern <:+: l
  := by
  induction l with
  | nil =>
    rw [cut, infix_nil]
    split_ifs with hpattern
    all_goals simp [hpattern]
  | cons x rest ih =>
  rw [cut, infix_cons_iff, not_or]
  split_ifs with hstart
  · simp [hstart]
  · rw [Option.map_eq_none_iff, ih]
    simp [hstart]

/-! ### Splitting -/

/-- The parts between the places of the pattern, at most so many of them. -/
def splitTimes (pattern : List α) : ℕ → List α → List (List α)
  | 0, l => [l]
  | n + 1, l =>
    match cut pattern l with
    | none => [l]
    | some (before, after) => before :: splitTimes pattern n after

/-- The parts between the places of a pattern that is not empty. -/
def split (pattern l : List α) : List (List α) :=
  splitTimes pattern l.length l

theorem length_after_lt {before after : List α} (hne : pattern ≠ [])
    (h : cut pattern l = some (before, after)) :
  after.length < l.length
  := by
  have hpos := length_pos_iff.mpr hne
  rw [(cut_eq_some h).1, length_append, length_append]
  omega

/-- A list is not split more often than it has elements. -/
theorem splitTimes_eq (hne : pattern ≠ []) {n m : ℕ} (hn : l.length ≤ n) (hm : l.length ≤ m) :
  splitTimes pattern n l = splitTimes pattern m l
  := by
  induction n generalizing m l with
  | zero =>
    obtain rfl := eq_nil_of_length_eq_zero (Nat.le_zero.mp hn)
    cases m with
    | zero => rfl
    | succ m => simp [splitTimes, cut, hne]
  | succ n ih =>
  cases m with
  | zero =>
    obtain rfl := eq_nil_of_length_eq_zero (Nat.le_zero.mp hm)
    simp [splitTimes, cut, hne]
  | succ m =>
  rw [splitTimes, splitTimes]
  cases hcut : cut pattern l with
  | none => rfl
  | some p =>
  have hlt := length_after_lt hne hcut
  dsimp only
  rw [ih]
  all_goals omega

/-- A list is split where it is cut, and then what is after it. -/
theorem split_eq (hne : pattern ≠ []) (l : List α) :
  split pattern l =
    match cut pattern l with
    | none => [l]
    | some (before, after) => before :: split pattern after
  := by
  have htimes : split pattern l = splitTimes pattern (l.length + 1) l :=
    splitTimes_eq hne (le_refl _) (Nat.le_succ _)
  rw [htimes, splitTimes]
  cases hcut : cut pattern l with
  | none => rfl
  | some p =>
    dsimp only
    rw [splitTimes_eq hne (length_after_lt hne hcut).le (le_refl _)]
    rfl

theorem split_ne_nil (pattern l : List α) :
  split pattern l ≠ []
  := by
  unfold split
  cases l.length with
  | zero => simp [splitTimes]
  | succ n =>
    rw [splitTimes]
    split <;> simp

/-- The parts with the pattern between them are the list. -/
theorem intercalate_split (hne : pattern ≠ []) (l : List α) :
  pattern.intercalate (split pattern l) = l
  := by
  induction hn : l.length using Nat.strong_induction_on generalizing l with
  | _ n ih =>
  rw [split_eq hne]
  cases hcut : cut pattern l with
  | none => simp
  | some p =>
  obtain ⟨q, qs, hparts⟩ := exists_cons_of_ne_nil (split_ne_nil pattern p.2)
  have hlt := length_after_lt hne hcut
  have hrest := ih _ (hn ▸ hlt) p.2 rfl
  rw [hparts] at hrest
  dsimp only
  rw [hparts, List.intercalate_cons_cons, hrest, ← (cut_eq_some hcut).1]

end Occurrences
