import VolundCode.Lib.Sorting

/-!
# Paging

A sorted list is handed out in pages. A page begins after the position of the last value of the
page before it: what the comparison does not put before that position is still to come. There is
no next page when a page holds all that is still to come.

Where no two values are tied the pages hold the values of the list in order, whatever their sizes
(`follow_eq`). Pages of one value never hold two values that are tied (`untied_of_follow`).
-/

namespace Paging

open Sorting List

variable {α κ : Type}

/-- What is still to come after a position. -/
def rest (key : α → κ) (le : κ → κ → Bool) (xs : List α) : Option κ → List α
  | none => xs
  | some k => xs.filter fun x => !le (key x) k

/-- A page, and the position of its last value if there is a next page. -/
def page (key : α → κ) (le : κ → κ → Bool) (xs : List α) (size : ℕ) (k : Option κ) :
    List α × Option κ :=
  let coming := rest key le xs k
  let items := coming.take size
  (items, if size < coming.length then items.getLast?.map key else none)

/-- The values of at most `n` pages, and the position after them if there is a next page. -/
def follow (key : α → κ) (le : κ → κ → Bool) (xs : List α) :
    ℕ → (ℕ → ℕ) → Option κ → List α × Option κ
  | 0, _, k => ([], k)
  | n + 1, sizes, k =>
    let p := page key le xs (sizes 0) k
    match p.2 with
    | none => (p.1, none)
    | some next =>
      let more := follow key le xs n (fun i => sizes (i + 1)) (some next)
      (p.1 ++ more.1, more.2)

variable {key : α → κ} {le : κ → κ → Bool} {xs ys zs : List α} {sizes : ℕ → ℕ} {k : Option κ}

/-- The values are in order. -/
def InOrder (key : α → κ) (le : κ → κ → Bool) (xs : List α) : Prop :=
  xs.Pairwise fun x y => le (key x) (key y)

/-- The positions of no two values are tied. -/
def Apart (key : α → κ) (le : κ → κ → Bool) (xs : List α) : Prop :=
  Untied (fun x y => le (key x) (key y)) xs

variable {size : ℕ}

theorem page_of_short (h : (rest key le xs k).length ≤ size) :
  page key le xs size k = (rest key le xs k, none)
  := by
  rw [page, take_of_length_le h, if_neg (by omega)]

theorem page_of_long {x : α} (hrest : rest key le xs k = ys ++ x :: zs)
    (hsize : size = ys.length + 1) (hzs : zs ≠ []) :
  page key le xs size k = (ys ++ [x], some (key x))
  := by
  have hlen : size < (ys ++ x :: zs).length := by
    have hpos := length_pos_iff.mpr hzs
    simp only [length_append, length_cons]
    omega
  have htake : (ys ++ x :: zs).take size = ys ++ [x] := by
    rw [hsize, append_cons, take_left' (by simp)]
  rw [page, hrest, if_pos hlen, htake]
  simp

/-- A list that is longer than a page is the page and what is after its last value. -/
theorem exists_split (hsize : 1 ≤ size) (h : size < xs.length) :
  ∃ ys x zs, xs = ys ++ x :: zs ∧ size = ys.length + 1 ∧ zs ≠ []
  := by
  use xs.take (size - 1), xs[size - 1], xs.drop size
  have hdrop : xs.drop (size - 1) = xs[size - 1] :: xs.drop size := by
    rw [drop_eq_getElem_cons (by omega), Nat.sub_add_cancel hsize]
  use ?_, ?_
  · simpa using h
  · rw [← hdrop, take_append_drop]
  · rw [length_take]
    omega

variable {n : ℕ}

/-- Where no two positions are tied, pages after a part of the list hold what comes after it. -/
theorem follow_rest (hle : Comparison le) (horder : InOrder key le xs) (happart : Apart key le xs)
    (hsizes : ∀ i, 1 ≤ sizes i) (hxs : xs = ys ++ zs) (hk : rest key le xs k = zs)
    (hn : zs.length < n) :
  follow key le xs n sizes k = (zs, none)
  := by
  induction n generalizing ys zs k sizes with
  | zero => cases hn
  | succ n ih =>
  rw [follow]
  rcases Nat.lt_or_ge (sizes 0) zs.length with hlong | hshort
  · obtain ⟨us, x, vs, hzs, hsize, hvs⟩ := exists_split (hsizes 0) hlong
    have hsplit : xs = (ys ++ us) ++ x :: vs := by rw [hxs, hzs, append_assoc]
    have hnext : rest key le xs (some (key x)) = vs := by
      rw [rest, hsplit]
      rw [hsplit] at horder happart
      apply filter_after (hle.comap key) horder happart
    rw [page_of_long (hk.trans hzs) hsize hvs]
    have hvslength : vs.length < n := by
      rw [hzs] at hn
      simp only [length_append, length_cons] at hn
      omega
    have hvsplit : xs = (ys ++ us ++ [x]) ++ vs := by simp [hsplit]
    have hmore := ih (fun i => hsizes (i + 1)) hvsplit hnext hvslength
    simp only [hmore, hzs]
    simp
  · rw [page_of_short (by rw [hk]; apply hshort), hk]

/-- Where no two positions are tied the pages hold all values in order. -/
theorem follow_eq (hle : Comparison le) (horder : InOrder key le xs) (happart : Apart key le xs)
    (hsizes : ∀ i, 1 ≤ sizes i) (hn : xs.length < n) :
  follow key le xs n sizes none = (xs, none)
  := follow_rest hle horder happart hsizes (nil_append xs).symm rfl hn

/-- The position of the next page is that of the last value of this one. -/
theorem exists_last {next : κ} (h : (page key le xs size k).2 = some next) :
  ∃ y, (page key le xs size k).1.getLast? = some y ∧ key y = next
  := by
  rw [page] at h ⊢
  dsimp only at h ⊢
  split_ifs at h
  obtain ⟨y, hy, rfl⟩ := Option.map_eq_some_iff.mp h
  use y

/-- Pages after a position hold values that are not before it. -/
theorem not_le_of_follow (hle : Comparison le) {p : κ} {x : α}
    (hx : x ∈ (follow key le xs n sizes (some p)).1) :
  le (key x) p = false
  := by
  induction n generalizing p sizes with
  | zero => cases hx
  | succ n ih =>
  have hpage : ∀ y ∈ (page key le xs (sizes 0) (some p)).1, le (key y) p = false := by
    intro y hy
    have hmem := (mem_filter.mp (mem_of_mem_take hy)).2
    simpa using hmem
  rw [follow] at hx
  cases hnext : (page key le xs (sizes 0) (some p)).2 with
  | none =>
    rw [hnext] at hx
    apply hpage x hx
  | some next =>
  rw [hnext] at hx
  rcases mem_append.mp hx with hx | hx
  · apply hpage x hx
  obtain ⟨y, hy, rfl⟩ := exists_last hnext
  have hafter := ih hx
  have hpre := hpage y (mem_of_getLast? hy)
  apply Bool.eq_false_iff.mpr
  intro hxp
  have hpy : le p (key y) := by simpa [hpre] using hle.total (key y) p
  have hxy := hle.trans _ _ _ hxp hpy
  rw [hxy] at hafter
  cases hafter

/-- Pages of one value hold no two values that are tied. -/
theorem untied_of_follow (hle : Comparison le) (hsizes : ∀ i, sizes i = 1) :
  Apart key le (follow key le xs n sizes k).1
  := by
  induction n generalizing sizes k with
  | zero => exact List.Pairwise.nil
  | succ n ih =>
  have hone : (page key le xs (sizes 0) k).1.length ≤ 1 := by
    rw [page, hsizes 0]
    simp
  rw [follow]
  cases hnext : (page key le xs (sizes 0) k).2 with
  | none =>
    obtain hnil | ⟨y, hy⟩ := Nat.le_one_iff_eq_zero_or_eq_one.mp hone |>.imp
      length_eq_zero_iff.mp length_eq_one_iff.mp
    · rw [hnil]
      exact List.Pairwise.nil
    · rw [hy]
      exact pairwise_singleton _ _
  | some next =>
  obtain ⟨y, hy, rfl⟩ := exists_last hnext
  have hsingle : (page key le xs (sizes 0) k).1 = [y] := by
    have hne : (page key le xs (sizes 0) k).1 ≠ [] := by
      intro hnil
      simp [hnil] at hy
    have hlen := Nat.le_antisymm hone (length_pos_iff.mpr hne)
    obtain ⟨z, hz⟩ := length_eq_one_iff.mp hlen
    rw [hz] at hy ⊢
    simpa using hy
  rw [hsingle]
  apply pairwise_cons.mpr
  constructor
  · intro z hz htied
    have hafter := not_le_of_follow hle hz
    have hpre : le (key z) (key y) := htied.2
    rw [hpre] at hafter
    cases hafter
  · apply ih fun i => hsizes (i + 1)

end Paging
