import Mathlib.Tactic.Ring
import VolundCode.Lib.CodeUnits

/-!
# Edits of texts

What the tools `Edit` and `MultiEdit` make of the text of a file. `Edit` counts the places of
`old_string` with `split` and replaces one with `replace`, or all with `split` and `join`;
`MultiEdit` applies its edits one after another.

An edit that succeeds splices `new_string` in for the only place of `old_string`, and for all of its
places with `replace_all`, unless `old_string` is empty, is found once from left to right and has
another place that overlaps this one, or `new_string` has sequences that `replace` does not read as
themselves (`splices_iff`).
-/

namespace Tools

open CodeUnits

/-- An edit of `Edit`. -/
structure EditInput where
  path : String
  oldString : Text
  newString : Text
  replaceAll : Bool

/-- An edit of `MultiEdit`. -/
structure Edit where
  oldString : Text
  newString : Text

/-- The errors of edits. -/
inductive EditError where
  | noOp (path : String)
  | notFound (path : String)
  | ambiguous (path : String) (count : ℤ)
  deriving DecidableEq

def EditError.code : EditError → String
  | .noOp _ => "tool_edit_no_op"
  | .notFound _ => "tool_edit_not_found"
  | .ambiguous _ _ => "tool_edit_ambiguous"

def EditError.message : EditError → String
  | .noOp path => "new_string equals old_string in " ++ path ++ "; refusing no-op edit"
  | .notFound path => "old_string not found in " ++ path ++ " (file may have changed; re-Read)"
  | .ambiguous path count =>
    "old_string matches " ++ toString count ++ " locations in " ++ path ++
      "; provide a longer context to disambiguate"

/-- `text.split(old_string).length - 1`. -/
def countOf (oldString text : Text) : ℤ :=
  (split oldString text).length - 1

/-- What `EditTool` makes of the text of the file `p`. -/
def EditTool.edited (p : String) (i : EditInput) (old : Text) : Except EditError Text :=
  if i.newString = i.oldString then .error (.noOp i.path)
  else
    let count := countOf i.oldString old
    if count = 0 then .error (.notFound p)
    else if 1 < count ∧ i.replaceAll = false then .error (.ambiguous p count)
    else
      .ok (if i.replaceAll then join i.newString (split i.oldString old)
        else replace i.oldString i.newString old)

/-- One edit of `MultiEditTool`. -/
def MultiEditTool.editedOnce (path : String) (content : Text) (edit : Edit) :
    Except EditError Text :=
  if edit.newString = edit.oldString then .error (.noOp path)
  else
    let count := countOf edit.oldString content
    if count = 0 then .error (.notFound path)
    else if 1 < count then .error (.ambiguous path count)
    else .ok (replace edit.oldString edit.newString content)

/-- What `MultiEditTool` makes of the text of a file. -/
def MultiEditTool.edited (path : String) (edits : List Edit) (content : Text) :
    Except EditError Text :=
  edits.foldlM (editedOnce path) content

/-! ### What edits should do -/

/-- The new text has the new string in place of the only place of the old one, which is not
empty. -/
def Spliced (o n t next : Text) : Prop :=
  o ≠ [] ∧ ∃ x y, t = x ++ o ++ y ∧ (∀ x' y', t = x' ++ o ++ y' → x' = x) ∧ next = x ++ n ++ y

/-- Every place of `o` from left to right has been replaced. The empty text has a place before every
unit and at the end. -/
inductive Replaced (o n : Text) : Text → Text → Prop where
  | none {t : Text} (h : ¬ o <:+: t) : Replaced o n t t
  | next {x y y' : Text} (hne : o ≠ [])
      (hfirst : ∀ x' y', x ++ o ++ y = x' ++ o ++ y' → x.length ≤ x'.length)
      (h : Replaced o n y y') : Replaced o n (x ++ o ++ y) (x ++ n ++ y')
  | emptyEnd (h : o = []) : Replaced o n [] n
  | emptyUnit {unit : UInt16} {t t' : Text} (h : o = []) (ht : Replaced o n t t') :
      Replaced o n (unit :: t) (n ++ unit :: t')

/-- Both tools splice where they succeed, `replace_all` replaces every place, and at the only place
it makes no difference. -/
structure Splices (path p : String) (t o n : Text) : Prop where
  edit : ∀ next, EditTool.edited p ⟨path, o, n, false⟩ t = .ok next → Spliced o n t next
  multi : ∀ next, MultiEditTool.edited p [⟨o, n⟩] t = .ok next → Spliced o n t next
  all : ∀ next, EditTool.edited p ⟨path, o, n, true⟩ t = .ok next → Replaced o n t next
  same : (∃ x y, t = x ++ o ++ y ∧ ∀ x' y', t = x' ++ o ++ y' → x' = x) →
    EditTool.edited p ⟨path, o, n, false⟩ t = EditTool.edited p ⟨path, o, n, true⟩ t

/-- An edit that is rejected because its strings are the same or because it is empty in a text of
one unit, or one whose old string is not empty and, if it is found once, is only there, and whose new
string is read as it is. -/
def Literal (t o n : Text) : Prop :=
  n = o ∨ o = [] ∧ t.length = 1 ∨
    o ≠ [] ∧ ∀ x y, Occurrences.cut o t = some (x, y) → Occurrences.cut o y = none →
      (∀ x' y', t = x' ++ o ++ y' → x' = x) ∧ getSubstitution o x y n = n

/-! ### Counting -/

variable {path p : String} {t o n : Text}

/-- How often a string that is not empty is found. -/
theorem countOf_eq (ho : o ≠ []) :
  countOf o t =
    match Occurrences.cut o t with
    | none => 0
    | some (_, y) => countOf o y + 1
  := by
  unfold countOf split
  rw [if_neg ho, Occurrences.split_eq ho]
  cases Occurrences.cut o t with
  | none => rfl
  | some q =>
  dsimp only
  rw [if_neg ho, List.length_cons]
  push_cast
  ring

theorem countOf_nonneg (ho : o ≠ []) (t : Text) :
  0 ≤ countOf o t
  := by
  unfold countOf split
  rw [if_neg ho]
  have hpos := List.length_pos_iff.mpr (Occurrences.split_ne_nil o t)
  omega

theorem countOf_eq_zero (ho : o ≠ []) :
  countOf o t = 0 ↔ Occurrences.cut o t = none
  := by
  rw [countOf_eq ho]
  cases Occurrences.cut o t with
  | none => simp
  | some q =>
    have hnonneg := countOf_nonneg ho q.2
    simp only [reduceCtorEq, iff_false]
    omega

/-- What is found once is not found after it. -/
theorem countOf_eq_one (ho : o ≠ []) :
  countOf o t = 1 ↔ ∃ x y, Occurrences.cut o t = some (x, y) ∧ Occurrences.cut o y = none
  := by
  rw [countOf_eq ho]
  cases Occurrences.cut o t with
  | none => simp
  | some q =>
  have hzero : countOf o q.2 = 0 ↔ Occurrences.cut o q.2 = none := countOf_eq_zero ho
  have hone : countOf o q.2 + 1 = 1 ↔ countOf o q.2 = 0 := by omega
  dsimp only
  rw [hone, hzero]
  constructor
  · intro h
    exact ⟨q.1, q.2, rfl, h⟩
  · rintro ⟨x, y, hq, hy⟩
    cases hq
    apply hy

/-- The empty string is found between the units. -/
theorem countOf_nil (t : Text) :
  countOf [] t = (t.length : ℤ) - 1
  := by
  simp [countOf, split]

/-! ### What edits do -/

variable {next : Text}

/-- `MultiEdit` with one edit succeeds with what `Edit` succeeds with. -/
theorem multiEdited_iff :
  MultiEditTool.edited p [⟨o, n⟩] t = .ok next ↔ EditTool.edited p ⟨path, o, n, false⟩ t = .ok next
  := by
  have hone : MultiEditTool.edited p [⟨o, n⟩] t = MultiEditTool.editedOnce p t ⟨o, n⟩ := by
    unfold MultiEditTool.edited
    rw [List.foldlM_cons]
    cases MultiEditTool.editedOnce p t ⟨o, n⟩ with
    | error e | ok next => rfl
  rw [hone]
  unfold MultiEditTool.editedOnce EditTool.edited
  split_ifs <;> simp_all

/-- An edit succeeds without `replace_all` when the old string is found once, or is empty and the
text has no unit or two. -/
theorem edited_eq_ok_iff :
  EditTool.edited p ⟨path, o, n, false⟩ t = .ok next ↔
    n ≠ o ∧ (countOf o t = 1 ∨ countOf o t < 0) ∧ next = replace o n t
  := by
  unfold EditTool.edited
  simp only [Bool.false_eq_true, if_false, and_true]
  split_ifs with hsame hzero hmany
  · simp [hsame]
  · simp [hzero]
  · simp only [false_iff]
    omega
  · have hcount : countOf o t = 1 ∨ countOf o t < 0 := by omega
    simp only [Except.ok.injEq, ne_eq, hsame, not_false_eq_true, hcount, true_and]
    apply eq_comm

/-- With `replace_all` it succeeds when it is found at all. -/
theorem editedAll_eq_ok_iff :
  EditTool.edited p ⟨path, o, n, true⟩ t = .ok next ↔
    n ≠ o ∧ countOf o t ≠ 0 ∧ next = join n (split o t)
  := by
  unfold EditTool.edited
  simp only [Bool.true_eq_false, and_false, if_false, if_true]
  split_ifs with hsame hzero
  · simp [hsame]
  · simp [hzero]
  · simp only [Except.ok.injEq, ne_eq, hsame, hzero, not_false_eq_true, true_and]
    apply eq_comm

/-- What is found once is replaced, with what is read of the new string. -/
theorem edited_once (ho : o ≠ []) (hn : n ≠ o) {x y : Text}
    (hx : Occurrences.cut o t = some (x, y)) (hy : Occurrences.cut o y = none) :
  EditTool.edited p ⟨path, o, n, false⟩ t = .ok (x ++ getSubstitution o x y n ++ y)
  := by
  apply edited_eq_ok_iff.mpr
  refine ⟨hn, Or.inl ((countOf_eq_one ho).mpr ⟨x, y, hx, hy⟩), ?_⟩
  rw [replace, hx]

/-- Parts that are joined with another string. -/
theorem replaced_join_split (ho : o ≠ []) (t : Text) :
  Replaced o n t (join n (split o t))
  := by
  induction hlen : t.length using Nat.strong_induction_on generalizing t with
  | _ k ih =>
  rw [split, if_neg ho, Occurrences.split_eq ho]
  cases hcut : Occurrences.cut o t with
  | none =>
    have hnone : Replaced o n t t := Replaced.none (Occurrences.cut_eq_none_iff.mp hcut)
    simpa [join] using hnone
  | some q =>
  obtain ⟨ht, hfirst⟩ := Occurrences.cut_eq_some hcut
  have hlt := Occurrences.length_after_lt ho hcut
  have hrest := ih _ (hlen ▸ hlt) q.2 rfl
  rw [split, if_neg ho] at hrest
  obtain ⟨r, rs, hparts⟩ := List.exists_cons_of_ne_nil (Occurrences.split_ne_nil o q.2)
  dsimp only
  rw [hparts] at hrest ⊢
  rw [ht] at hfirst
  have hjoin : join n (q.1 :: r :: rs) = q.1 ++ n ++ join n (r :: rs) := by
    rw [join, List.intercalate_cons_cons, join]
  rw [hjoin, ht]
  apply Replaced.next ho hfirst hrest

/-- The length of a text with another one at every place. -/
theorem length_of_replaced_nil (h : Replaced [] n t next) :
  next.length = t.length + (t.length + 1) * n.length
  := by
  generalize ho : ([] : Text) = o at h
  induction h with
  | none hnot =>
    subst ho
    cases hnot List.nil_infix
  | next hne => cases hne ho.symm
  | emptyEnd => simp
  | emptyUnit _ _ ih =>
    rw [List.length_append, List.length_cons, ih, List.length_cons]
    ring

/-- The length of the units of a text with another one between them. -/
theorem length_join_units (t : Text) :
  (join n (split [] t)).length = t.length + (t.length - 1) * n.length
  := by
  rw [split, if_pos rfl, join]
  induction t with
  | nil => simp [List.intercalate]
  | cons unit t ih =>
  cases t with
  | nil => simp [List.intercalate]
  | cons unit' t =>
  rw [List.map_cons] at ih ⊢
  rw [List.map_cons, List.intercalate_cons_cons, List.length_append, List.length_append, ih]
  simp only [List.length_cons, List.length_nil, Nat.add_sub_cancel]
  ring

/-- The place at which a text is cut is the only one, where there is only one. -/
theorem cut_of_unique (ho : o ≠ []) {x y : Text} (ht : t = x ++ o ++ y)
    (hunique : ∀ x' y', t = x' ++ o ++ y' → x' = x) :
  Occurrences.cut o t = some (x, y) ∧ Occurrences.cut o y = none
  := by
  constructor
  · cases hcut : Occurrences.cut o t with
    | none =>
      exfalso
      apply Occurrences.cut_eq_none_iff.mp hcut
      exact ⟨x, y, ht.symm⟩
    | some q =>
      obtain ⟨hq, -⟩ := Occurrences.cut_eq_some hcut
      have hx := hunique q.1 q.2 hq
      rw [hq, hx, List.append_assoc, List.append_assoc, List.append_cancel_left_eq,
        List.append_cancel_left_eq] at ht
      rw [← hx, ← ht]
  apply Occurrences.cut_eq_none_iff.mpr
  rintro ⟨x', y', hy⟩
  have hx := hunique (x ++ o ++ x') y' (by rw [ht, ← hy]; simp)
  have hlen := congrArg List.length hx
  have hpos := List.length_pos_iff.mpr ho
  rw [List.length_append, List.length_append] at hlen
  omega

/-- **An edit splices exactly where its strings are read literally.** -/
theorem splices_iff :
  Splices path p t o n ↔ Literal t o n
  := by
  constructor
  · intro h
    by_cases hn : n = o
    · exact Or.inl hn
    right
    by_cases ho : o = []
    · left
      subst ho
      refine ⟨rfl, ?_⟩
      by_contra hone
      have hcount : countOf [] t ≠ 0 := by
        rw [countOf_nil]
        omega
      have hreplaced := h.all _ (editedAll_eq_ok_iff.mpr ⟨hn, hcount, rfl⟩)
      have hlen := length_of_replaced_nil hreplaced
      rw [length_join_units, Nat.add_left_cancel_iff] at hlen
      have hpos := List.length_pos_iff.mpr hn
      have hlt : (t.length - 1) * n.length < (t.length + 1) * n.length := by
        apply Nat.mul_lt_mul_of_pos_right _ hpos
        omega
      omega
    right
    refine ⟨ho, fun x y hx hy => ?_⟩
    obtain ⟨-, x', y', ht, hunique, hnext⟩ := h.edit _ (edited_once ho hn hx hy)
    obtain ⟨hcut, -⟩ := cut_of_unique ho ht hunique
    rw [hcut] at hx
    cases hx
    rw [List.append_cancel_right_eq, List.append_cancel_left_eq] at hnext
    exact ⟨hunique, hnext⟩
  intro h
  have hedit : ∀ next, EditTool.edited p ⟨path, o, n, false⟩ t = .ok next → Spliced o n t next := by
    intro next hnext
    obtain ⟨hn, hcount, rfl⟩ := edited_eq_ok_iff.mp hnext
    rcases h with hsame | ⟨rfl, hone⟩ | ⟨ho, hlit⟩
    · cases hn hsame
    · rw [countOf_nil, hone] at hcount
      omega
    have hnonneg := countOf_nonneg ho t
    have hone : countOf o t = 1 := by omega
    obtain ⟨x, y, hx, hy⟩ := (countOf_eq_one ho).mp hone
    obtain ⟨hunique, hsubst⟩ := hlit x y hx hy
    refine ⟨ho, x, y, (Occurrences.cut_eq_some hx).1, hunique, ?_⟩
    rw [replace, hx]
    dsimp only
    rw [hsubst]
  constructor
  · apply hedit
  · intro next hnext
    apply hedit
    apply multiEdited_iff.mp hnext
  · intro next hnext
    obtain ⟨hn, hcount, rfl⟩ := editedAll_eq_ok_iff.mp hnext
    rcases h with hsame | ⟨rfl, hone⟩ | ⟨ho, -⟩
    · cases hn hsame
    · rw [countOf_nil, hone] at hcount
      cases hcount rfl
    · apply replaced_join_split ho
  rintro ⟨x, y, ht, hunique⟩
  by_cases hn : n = o
  · unfold EditTool.edited
    rw [if_pos hn, if_pos hn]
  rcases h with hsame | ⟨rfl, hone⟩ | ⟨ho, hlit⟩
  · cases hn hsame
  · exfalso
    have hstart := hunique [] t rfl
    have hend := hunique t [] (by simp)
    rw [← hstart] at hend
    rw [hend] at hone
    cases hone
  obtain ⟨hx, hy⟩ := cut_of_unique ho ht hunique
  obtain ⟨-, hsubst⟩ := hlit x y hx hy
  rw [edited_once ho hn hx hy, hsubst]
  symm
  apply editedAll_eq_ok_iff.mpr
  refine ⟨hn, ?_, ?_⟩
  · rw [(countOf_eq_one ho).mpr ⟨x, y, hx, hy⟩]
    decide
  rw [split, if_neg ho, Occurrences.split_eq ho, hx]
  dsimp only
  rw [Occurrences.split_eq ho, hy]
  simp [join, List.intercalate]

/-- The text `a` with `a` replaced by `$$` is `$`. -/
theorem not_splices :
  ¬ Splices "f" "/f" [0x61] [0x61] [0x24, 0x24]
  := by
  intro h
  have hedited : EditTool.edited "/f" ⟨"f", [0x61], [0x24, 0x24], false⟩ [0x61] = .ok [0x24] := by
    decide +kernel
  obtain ⟨-, x, y, -, -, hnext⟩ := h.edit _ hedited
  have hlen := congrArg List.length hnext
  rw [List.length_append, List.length_append, List.length_singleton, List.length_cons,
    List.length_singleton] at hlen
  omega

end Tools
