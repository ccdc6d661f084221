import Mathlib

/-!
# Sequences given by the next point

A partial function `next` on the integers whose values lie past their argument gives, from
any point, an ascending sequence. The points up to a bound are finitely many (`points`,
`mem_points_iff`), the enumeration that stops after `k` points is a prefix of them
(`upTo_eq_take`), and so are the points up to a smaller bound (`filter_upTo`). The
enumeration can be taken up again at any point it has reached (`points_after`).
-/

namespace Ascending

open Relation List

/-- The value of `next` is the point after its argument. -/
def Next (next : ℤ → Option ℤ) (a b : ℤ) : Prop :=
  next a = some b

/-- The points after `a` that do not exceed `bound`, at most `k` of them. -/
def upTo (next : ℤ → Option ℤ) (bound : ℤ) : ℕ → ℤ → List ℤ
  | 0, _ => []
  | k + 1, a =>
    match next a with
    | none => []
    | some b => if bound < b then [] else b :: upTo next bound k b

/-- The points after `a` that do not exceed `bound`: between two integers lie no more points
than their distance. -/
def points (next : ℤ → Option ℤ) (bound a : ℤ) : List ℤ :=
  upTo next bound (bound - a).toNat a

variable {next : ℤ → Option ℤ} {bound : ℤ}

/-- The points of an enumeration are reached and do not exceed the bound. -/
theorem mem_upTo {k : ℕ} {a c : ℤ} (hc : c ∈ upTo next bound k a) :
  TransGen (Next next) a c ∧ c ≤ bound
  := by
  induction k generalizing a with
  | zero => simp [upTo] at hc
  | succ k ih =>
  rw [upTo] at hc
  cases hn : next a with
  | none => simp [hn] at hc
  | some b =>
  rw [hn] at hc
  dsimp only at hc
  by_cases hb : bound < b
  · simp [hb] at hc
  rw [if_neg hb, mem_cons] at hc
  rcases hc with rfl | hc
  · exact ⟨.single hn, not_lt.mp hb⟩
  · obtain ⟨hreach, hle⟩ := ih hc
    exact ⟨.head hn hreach, hle⟩

/-- The first point is the next one. -/
theorem next_of_head? {a b : ℤ} (h : (points next bound a).head? = some b) :
  next a = some b
  := by
  rw [points] at h
  cases hk : (bound - a).toNat with
  | zero => simp [hk, upTo] at h
  | succ k =>
  rw [hk, upTo] at h
  cases hn : next a with
  | none => simp [hn] at h
  | some c =>
  rw [hn] at h
  dsimp only at h
  by_cases hc : bound < c
  · simp [hc] at h
  · rw [if_neg hc, List.head?_cons] at h
    exact h

section Ascending

variable (hnext : ∀ a b, next a = some b → a < b)

include hnext

variable {a c : ℤ}

/-- What is reached lies past where it is reached from. -/
theorem lt_of_reaches (h : TransGen (Next next) a c) :
  a < c
  := by
  induction h with
  | single h => exact hnext _ _ h
  | tail _ h ih => exact ih.trans (hnext _ _ h)

/-- An enumeration is ascending. -/
theorem pairwise_upTo (k : ℕ) (a : ℤ) :
  (upTo next bound k a).Pairwise (· < ·)
  := by
  induction k generalizing a with
  | zero => exact .nil
  | succ k ih =>
  rw [upTo]
  cases hn : next a with
  | none => exact .nil
  | some b =>
  dsimp only
  by_cases hb : bound < b
  · rw [if_pos hb]
    exact .nil
  rw [if_neg hb, pairwise_cons]
  constructor
  · intro c hc
    apply lt_of_reaches hnext (mem_upTo hc).1
  · apply ih

/-- Past the bound nothing is enumerated. -/
theorem upTo_of_le (ha : bound ≤ a) (k : ℕ) :
  upTo next bound k a = []
  := by
  apply eq_nil_iff_forall_not_mem.mpr
  intro c hc
  obtain ⟨hreach, hle⟩ := mem_upTo hc
  have hlt := lt_of_reaches hnext hreach
  omega

/-- Once there is room for the distance to the bound, more room does not change an
enumeration. -/
theorem upTo_of_room {k m : ℕ} (hk : (bound - a).toNat ≤ k) (hkm : k ≤ m) :
  upTo next bound m a = upTo next bound k a
  := by
  induction k generalizing a m with
  | zero =>
    have ha : bound ≤ a := by omega
    rw [upTo_of_le hnext ha, upTo_of_le hnext ha]
  | succ k ih =>
  obtain ⟨m, rfl⟩ : ∃ j, m = j + 1 := ⟨m - 1, by omega⟩
  rw [upTo, upTo]
  cases hn : next a with
  | none => rfl
  | some b =>
    have hab := hnext a b hn
    dsimp only
    rw [ih (by omega) (by omega)]

/-- An enumeration with `k` places is the first `k` points. -/
theorem upTo_eq_take (k : ℕ) (a : ℤ) :
  upTo next bound k a = (points next bound a).take k
  := by
  have htake : ∀ m, (upTo next bound (k + m) a).take k = upTo next bound k a := by
    intro m
    induction k generalizing a with
    | zero => rfl
    | succ k ih =>
    rw [Nat.add_right_comm, upTo, upTo]
    cases hn : next a with
    | none => rfl
    | some b =>
    dsimp only
    by_cases hb : bound < b
    · simp [hb]
    · rw [if_neg hb, if_neg hb, take_succ_cons, ih]
  have hroom : points next bound a = upTo next bound (k + (bound - a).toNat) a :=
    (upTo_of_room hnext le_rfl (by omega)).symm
  rw [hroom, htake]

/-- The points up to a bound are what is reached and does not exceed it. -/
theorem mem_points_iff :
  c ∈ points next bound a ↔ TransGen (Next next) a c ∧ c ≤ bound
  := by
  constructor
  · apply mem_upTo
  rintro ⟨hreach, hle⟩
  induction hreach using TransGen.head_induction_on with
  | single h =>
    rename_i a
    have hac := hnext a c h
    rw [points, ← upTo_of_room hnext le_rfl (Nat.le_succ _), upTo, h]
    simp [not_lt.mpr hle]
  | head h hreach ih =>
  rename_i a b
  have hab := hnext a b h
  have hbc := lt_of_reaches hnext hreach
  rw [points, ← upTo_of_room hnext le_rfl (Nat.le_succ _), upTo, h]
  dsimp only
  rw [if_neg (by omega), upTo_of_room hnext le_rfl (by omega)]
  exact mem_cons_of_mem _ ih

/-- The points up to a bound are ascending. -/
theorem pairwise_points (a : ℤ) :
  (points next bound a).Pairwise (· < ·)
  := pairwise_upTo hnext _ a

/-- Of an enumeration the points up to a smaller bound are the enumeration to that bound. -/
theorem filter_upTo (low : ℤ) (k : ℕ) (a : ℤ) :
  (upTo next bound k a).filter (· ≤ low) = upTo next (min bound low) k a
  := by
  induction k generalizing a with
  | zero => rfl
  | succ k ih =>
  rw [upTo, upTo]
  cases hn : next a with
  | none => rfl
  | some b =>
  dsimp only
  by_cases hb : bound < b
  · rw [if_pos hb, if_pos ((min_le_left _ _).trans_lt hb)]
    rfl
  rw [if_neg hb]
  by_cases hlow : low < b
  · rw [if_pos ((min_le_right _ _).trans_lt hlow), filter_eq_nil_iff]
    intro c hc
    rcases mem_cons.mp hc with rfl | hc
    · simpa using hlow
    · have hbc := lt_of_reaches hnext (mem_upTo hc).1
      simp only [decide_eq_true_eq]
      omega
  · rw [if_neg (not_lt.mpr (le_min (not_lt.mp hb) (not_lt.mp hlow))),
      filter_cons_of_pos (by simpa using hlow), ih]

/-- The points up to the smaller of two bounds. -/
theorem points_min (low a : ℤ) :
  points next (min bound low) a = (points next bound a).filter (· ≤ low)
  := by
  rw [points, points, filter_upTo hnext]
  apply (upTo_of_room hnext le_rfl (by omega)).symm

/-- The last of the first points is the last of all when there are no others. -/
theorem getLast?_take_points {k : ℕ} (hc : (points next bound a).getLast? = some c) :
  ((points next bound a).take k).getLast? = some c ↔ (points next bound a).length ≤ k
  := by
  have hasc : (points next bound a).Pairwise (· < ·) := pairwise_upTo hnext _ a
  constructor
  · intro hlast
    by_contra hlen
    rw [← take_append_drop k (points next bound a), pairwise_append] at hasc
    have hdrop : c ∈ (points next bound a).drop k := by
      apply mem_of_mem_getLast?
      rw [List.getLast?_drop, if_neg (by omega), hc]
      rfl
    have hlt := hasc.2.2 c (mem_of_mem_getLast? hlast) c hdrop
    omega
  · intro hlen
    rw [take_of_length_le hlen, hc]

/-- An enumeration leaves out nothing before a point it has come to. -/
theorem mem_upTo_of_le {k : ℕ} {b : ℤ} (hc : c ∈ upTo next bound k a)
    (hb : b ∈ points next bound a) (hle : b ≤ c) :
  b ∈ upTo next bound k a
  := by
  have hasc : (points next bound a).Pairwise (· < ·) := pairwise_points hnext a
  rw [upTo_eq_take hnext] at hc ⊢
  rw [← take_append_drop k (points next bound a)] at hb hasc
  rcases mem_append.mp hb with hb | hb
  · exact hb
  · have hlt := (pairwise_append.mp hasc).2.2 c hc b hb
    omega

/-- What lies past a point that has been reached is reached from it. -/
theorem reaches_of_lt {b : ℤ} (hb : TransGen (Next next) a b) (hc : TransGen (Next next) a c)
    (hlt : b < c) :
  TransGen (Next next) b c
  := by
  have hunique : Relator.RightUnique (Next next) := by
    intro x y z hy hz
    exact Option.some.inj (hy.symm.trans hz)
  rcases ReflTransGen.total_of_right_unique hunique hb.to_reflTransGen hc.to_reflTransGen with
    h | h
  · rcases reflTransGen_iff_eq_or_transGen.mp h with rfl | h
    · exact absurd hlt (lt_irrefl _)
    · exact h
  rcases reflTransGen_iff_eq_or_transGen.mp h with rfl | h
  · exact absurd hlt (lt_irrefl _)
  · have hgt := lt_of_reaches hnext h
    omega

/-- What is left after a point that has been reached is what is left of the whole. -/
theorem points_after {b : ℤ} (hb : TransGen (Next next) a b) :
  c ∈ points next bound b → c ∈ points next bound a
  := by
  intro hc
  obtain ⟨hreach, hle⟩ := mem_upTo hc
  rw [mem_points_iff hnext]
  exact ⟨hb.trans hreach, hle⟩

/-- The last point up to a bound is the greatest that is reached and does not exceed it. -/
theorem isGreatest_iff :
  IsGreatest {b | TransGen (Next next) a b ∧ b ≤ bound} c ↔ (points next bound a).getLast? = some c
  := by
  have hset : {b | TransGen (Next next) a b ∧ b ≤ bound} =
      {b | b ∈ points next bound a} := by
    ext b
    exact (mem_points_iff hnext).symm
  rw [hset]
  have hasc : (points next bound a).Pairwise (· < ·) := pairwise_points hnext a
  rcases eq_nil_or_concat (points next bound a) with hnil | ⟨init, last, hlast⟩
  · rw [hnil]
    simp [IsGreatest]
  rw [concat_eq_append] at hlast
  rw [hlast] at hasc ⊢
  rw [pairwise_append] at hasc
  have hgreat : IsGreatest {b | b ∈ init ++ [last]} last := by
    constructor
    · simp
    intro b hb
    rcases mem_append.mp hb with hb | hb
    · exact (hasc.2.2 b hb last (by simp)).le
    · exact (mem_singleton.mp hb).le
  simp only [List.getLast?_append, List.getLast?_singleton, Option.some_or, Option.some.injEq]
  constructor
  · intro h
    exact hgreat.unique h
  · rintro rfl
    exact hgreat

end Ascending

end Ascending
