import Mathlib.Data.List.Sort

/-!
# Sorting

A comparison is transitive and total; two values are tied if it puts each of them before the
other. Where no two values of a list are tied, the order they come in does not matter to the
sorted list (`sort_eq_of_perm`), and only there (`exists_sort_ne`). What comes after one of the
values in the sorted list is what the comparison does not put before it (`filter_after`).
-/

namespace Sorting

open List

/-- A comparison is a total preorder. -/
structure Comparison {α : Type} (le : α → α → Bool) : Prop where
  trans : ∀ a b c, le a b → le b c → le a c
  total : ∀ a b, (le a b || le b a) = true

variable {α : Type} {le : α → α → Bool} {xs ys zs : List α} {a b : α}

/-- The comparison puts each of the two before the other. -/
def Tied (le : α → α → Bool) (a b : α) : Prop :=
  le a b ∧ le b a

/-- No two values of the list are tied. -/
def Untied (le : α → α → Bool) (xs : List α) : Prop :=
  xs.Pairwise fun a b => ¬ Tied le a b

theorem Tied.symm (h : Tied le a b) :
  Tied le b a
  := ⟨h.2, h.1⟩

theorem Untied.perm (h : Untied le xs) (hperm : xs.Perm ys) :
  Untied le ys
  := by
  apply (hperm.pairwise_iff _).mp h
  intro a b hab htied
  apply hab htied.symm

theorem Untied.eq (h : Untied le xs) (ha : a ∈ xs) (hb : b ∈ xs) (htied : Tied le a b) :
  a = b
  := by
  induction xs with
  | nil => cases ha
  | cons x xs ih =>
  obtain ⟨hx, hxs⟩ := pairwise_cons.mp h
  rcases mem_cons.mp ha with hax | hax
  · rcases mem_cons.mp hb with hbx | hbx
    · rw [hax, hbx]
    · cases hx b hbx (hax ▸ htied)
  · rcases mem_cons.mp hb with hbx | hbx
    · cases hx a hax (hbx ▸ htied.symm)
    · apply ih hxs hax hbx

/-- Where a list without repetitions is not untied, there are two values that are tied. -/
theorem exists_tied (hnodup : xs.Nodup) (h : ¬ Untied le xs) :
  ∃ a ∈ xs, ∃ b ∈ xs, a ≠ b ∧ Tied le a b
  := by
  by_contra hnone
  push Not at hnone
  apply h
  apply hnodup.imp_of_mem
  intro a b ha hb hne
  apply hnone a ha b hb hne

/-- Values are compared by what a function makes of them. -/
theorem Comparison.comap {β : Type} (hle : Comparison le) (f : β → α) :
  Comparison fun b c => le (f b) (f c)
  := by
  constructor
  · intro a b c
    apply hle.trans
  · intro a b
    apply hle.total

theorem Comparison.pairwise (hle : Comparison le) (xs : List α) :
  (xs.mergeSort le).Pairwise fun a b => le a b
  := pairwise_mergeSort hle.trans hle.total xs

/-- The order of untied values does not matter to the sorted list. -/
theorem sort_eq_of_perm (hle : Comparison le) (h : Untied le xs) (hperm : xs.Perm ys) :
  xs.mergeSort le = ys.mergeSort le
  := by
  have hsorted : (xs.mergeSort le).Perm (ys.mergeSort le) :=
    (mergeSort_perm xs le).trans (hperm.trans (mergeSort_perm ys le).symm)
  apply Perm.eq_of_pairwise _ (hle.pairwise xs) (hle.pairwise ys) hsorted
  intro a b ha hb hab hba
  apply h.eq (mem_mergeSort.mp ha) (hperm.mem_iff.mpr (mem_mergeSort.mp hb)) ⟨hab, hba⟩

/-- Two values do not come in both orders in a list without repetitions. -/
theorem not_both_orders (hnodup : xs.Nodup) (hab : [a, b].Sublist xs) :
  ¬ [b, a].Sublist xs
  := by
  intro hba
  induction xs with
  | nil => cases hab
  | cons x xs ih =>
  obtain ⟨hx, hxs⟩ := nodup_cons.mp hnodup
  have hne : a ≠ b := by
    have hpair := hnodup.sublist hab
    simpa using hpair
  cases hab with
  | cons _ hab =>
    cases hba with
    | cons _ hba => apply ih hxs hab hba
    | cons_cons _ hba => apply hx (hab.subset (by simp))
  | cons_cons _ hab =>
    cases hba with
    | cons _ hba => apply hx (hba.subset (by simp))
    | cons_cons _ hba => apply hne rfl

/-- Where two values are tied, the values in another order are sorted otherwise. -/
theorem exists_sort_ne (hle : Comparison le) (hnodup : xs.Nodup) (h : ¬ Untied le xs) :
  ∃ ys zs, xs.Perm ys ∧ xs.Perm zs ∧ ys.mergeSort le ≠ zs.mergeSort le
  := by
  classical
  obtain ⟨a, ha, b, hb, hne, htied⟩ := exists_tied hnodup h
  have hrest : (xs.erase a).Perm (b :: (xs.erase a).erase b) :=
    perm_cons_erase (mem_erase_of_ne hne.symm |>.mpr hb)
  have hab : xs.Perm (a :: b :: (xs.erase a).erase b) := (perm_cons_erase ha).trans (hrest.cons a)
  have hba : xs.Perm (b :: a :: (xs.erase a).erase b) := hab.trans (Perm.swap _ _ _)
  refine ⟨_, _, hab, hba, ?_⟩
  intro heq
  have hfirst := pair_sublist_mergeSort hle.trans hle.total htied.1
    (Sublist.cons_cons a (Sublist.cons_cons b (nil_sublist ((xs.erase a).erase b))))
  have hsecond := pair_sublist_mergeSort hle.trans hle.total htied.2
    (Sublist.cons_cons b (Sublist.cons_cons a (nil_sublist ((xs.erase a).erase b))))
  rw [← heq] at hsecond
  apply not_both_orders _ hfirst hsecond
  rw [(mergeSort_perm _ _).nodup_iff]
  apply hab.nodup_iff.mp hnodup

/-- What comes after a value in the sorted list is what is not put before it. -/
theorem filter_after (hle : Comparison le) (hsorted : (xs ++ a :: ys).Pairwise fun a b => le a b)
    (h : Untied le (xs ++ a :: ys)) :
  (xs ++ a :: ys).filter (fun b => !le b a) = ys
  := by
  obtain ⟨-, hafter, hpre⟩ := pairwise_append.mp hsorted
  obtain ⟨-, huntied, -⟩ := pairwise_append.mp h
  have hself : le a a := by simpa using hle.total a a
  have hxs : xs.filter (fun b => !le b a) = [] := by
    rw [filter_eq_nil_iff]
    intro b hb
    simp [hpre b hb a mem_cons_self]
  have hys : ys.filter (fun b => !le b a) = ys := by
    rw [filter_eq_self]
    intro b hb
    have hab := (pairwise_cons.mp hafter).1 b hb
    have hnot := (pairwise_cons.mp huntied).1 b hb
    simp only [Bool.not_eq_true']
    apply Bool.eq_false_iff.mpr
    intro hba
    apply hnot ⟨hab, hba⟩
  rw [filter_append, hxs, nil_append, filter_cons_of_neg (by simp [hself]), hys]

end Sorting
