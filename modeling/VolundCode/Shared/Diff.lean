import Mathlib
import VolundCode.Lib.CodeUnits
import VolundCode.Lib.CommonSubsequence

/-!
# Line diffs

`diffLineOps` compares two texts line by line. What the two lists of lines have in common at the
beginning and at the end is cut off, and the lines between are compared by the table of their
longest common subsequences, which is filled from its last row to its first, and read from its
first entry by `walk`. Where the table would have more than `lcsCellLimit` entries, all lines
between are removed and added instead.

The entry of the table in row `i` and column `j` is the length of a longest common subsequence of
the lines from `i` and from `j` on (`filled_fillRows`), and the walk from there leaves as many lines
unchanged (`longest_walk`). The main result is `diffs_of_ne`: the lines kept and removed are those
of the first text, the lines kept and added are those of the second, and no other such list of
lines has fewer that are removed or added.
-/

namespace Shared.Diff

open CodeUnits CommonSubsequence List Longest

inductive LineType where
  | add
  | del
  | context
  deriving DecidableEq

/-- A line, with what becomes of it. -/
structure DiffLineOp where
  type : LineType
  text : Text
  deriving DecidableEq

def lcsCellLimit : ℕ := 4000000

/-- The lines of a text. The empty line after the last line feed is none. -/
def splitLines (content : Text) : List Text :=
  if content = [] then []
  else
    let lines := split [10] content
    if 1 < lines.length ∧ lines.getLast? = some [] then lines.dropLast else lines

/-! ### The table -/

/-- The entries of a `Uint32Array`. -/
abbrev Table := ℕ → ℕ

def Table.set (table : Table) (index value : ℕ) : Table :=
  Function.update table index (value % 2 ^ 32)

/-- The assignments to row `i`, from column `j - 1` down to the first. -/
def fillRow (a b : List Text) (i : ℕ) : ℕ → Table → Table
  | 0, table => table
  | j + 1, table =>
    let width := b.length + 1
    fillRow a b i j <| table.set (i * width + j) <|
      if a[i]? = b[j]? then table ((i + 1) * width + j + 1) + 1
      else max (table ((i + 1) * width + j)) (table (i * width + j + 1))

/-- The assignments to the rows from `i - 1` down to the first. -/
def fillRows (a b : List Text) : ℕ → Table → Table
  | 0, table => table
  | i + 1, table => fillRows a b i (fillRow a b i b.length table)

/-- The table of two lists of lines. -/
def lcsTable (a b : List Text) : Table :=
  fillRows a b a.length fun _ => 0

/-- The lines for row `i` and column `j` on. -/
def walk (table : Table) (a b : List Text) (i j : ℕ) : List DiffLineOp :=
  if h : i < a.length ∧ j < b.length then
    if a[i] = b[j] then { type := .context, text := a[i] } :: walk table a b (i + 1) (j + 1)
    else if table (i * (b.length + 1) + j + 1) ≤ table ((i + 1) * (b.length + 1) + j) then
      { type := .del, text := a[i] } :: walk table a b (i + 1) j
    else { type := .add, text := b[j] } :: walk table a b i (j + 1)
  else (a.drop i).map (DiffLineOp.mk .del) ++ (b.drop j).map (DiffLineOp.mk .add)
  termination_by a.length - i + (b.length - j)

/-- What `appendLcsOps` appends. -/
def lcsOps (a b : List Text) : List DiffLineOp :=
  walk (lcsTable a b) a b 0 0

/-! ### The diff -/

/-- The number of first lines in common. -/
def commonStart : List Text → List Text → ℕ
  | line :: a, line' :: b => if line = line' then commonStart a b + 1 else 0
  | _, _ => 0

/-- The ends of the two lists without the last lines in common, not below `start`. -/
def commonEnd (a b : List Text) (start : ℕ) : ℕ → ℕ → ℕ × ℕ
  | endA + 1, endB + 1 =>
    if start < endA + 1 ∧ start < endB + 1 ∧ a[endA]? = b[endB]? then commonEnd a b start endA endB
    else (endA + 1, endB + 1)
  | endA, endB => (endA, endB)

/-- `lines.slice(start, finish)`. -/
def slice (lines : List Text) (start finish : ℕ) : List Text :=
  (lines.take finish).drop start

/-- The lines between what the two lists of lines have in common at the beginning and at the end. -/
def middle (a b : List Text) : List Text × List Text :=
  let start := commonStart a b
  let ends := commonEnd a b start a.length b.length
  (slice a start ends.1, slice b start ends.2)

def diffLineOps (before after : Text) : List DiffLineOp :=
  if before = after then []
  else
    let a := splitLines before
    let b := splitLines after
    let start := commonStart a b
    let ends := commonEnd a b start a.length b.length
    let midA := (middle a b).1
    let midB := (middle a b).2
    (a.take start).map (DiffLineOp.mk .context) ++
      (if midA.length * midB.length ≤ lcsCellLimit then lcsOps midA midB
      else midA.map (DiffLineOp.mk .del) ++ midB.map (DiffLineOp.mk .add)) ++
      (a.drop ends.1).map (DiffLineOp.mk .context)

/-- The numbers of lines added and removed. -/
def countDiffLines (ops : List DiffLineOp) : ℕ × ℕ :=
  ops.foldl (fun counts op =>
    match op.type with
    | .add => (counts.1 + 1, counts.2)
    | .del => (counts.1, counts.2 + 1)
    | .context => counts) (0, 0)

/-! ### What a list of lines says of the texts -/

/-- The lines kept and removed. -/
def oldLines (ops : List DiffLineOp) : List Text :=
  (ops.filter fun op => op.type ≠ .add).map DiffLineOp.text

/-- The lines kept and added. -/
def newLines (ops : List DiffLineOp) : List Text :=
  (ops.filter fun op => op.type ≠ .del).map DiffLineOp.text

/-- The number of lines kept. -/
def kept (ops : List DiffLineOp) : ℕ :=
  (ops.filter fun op => op.type = .context).length

theorem oldLines_append (ops ops' : List DiffLineOp) :
  oldLines (ops ++ ops') = oldLines ops ++ oldLines ops'
  := by
  rw [oldLines, filter_append, map_append]
  rfl

theorem newLines_append (ops ops' : List DiffLineOp) :
  newLines (ops ++ ops') = newLines ops ++ newLines ops'
  := by
  rw [newLines, filter_append, map_append]
  rfl

theorem kept_append (ops ops' : List DiffLineOp) :
  kept (ops ++ ops') = kept ops + kept ops'
  := by
  rw [kept, filter_append, length_append]
  rfl

@[simp]
theorem oldLines_map (type : LineType) (lines : List Text) :
  oldLines (lines.map (DiffLineOp.mk type)) = if type = .add then [] else lines
  := by
  induction lines with
  | nil => simp [oldLines]
  | cons line lines ih => cases type <;> simp_all [oldLines]

@[simp]
theorem newLines_map (type : LineType) (lines : List Text) :
  newLines (lines.map (DiffLineOp.mk type)) = if type = .del then [] else lines
  := by
  induction lines with
  | nil => simp [newLines]
  | cons line lines ih => cases type <;> simp_all [newLines]

@[simp]
theorem kept_map (type : LineType) (lines : List Text) :
  kept (lines.map (DiffLineOp.mk type)) = if type = .context then lines.length else 0
  := by
  induction lines with
  | nil => simp [kept]
  | cons line lines ih => cases type <;> simp_all [kept]

/-- What is added and what is removed, with what is kept, is all of the two texts. -/
theorem countDiffLines_add_kept (ops : List DiffLineOp) :
  (countDiffLines ops).1 + kept ops = (newLines ops).length ∧
    (countDiffLines ops).2 + kept ops = (oldLines ops).length
  := by
  induction ops using List.reverseRecOn with
  | nil => simp [countDiffLines, kept, newLines, oldLines]
  | append_singleton ops op ih =>
  obtain ⟨type, text⟩ := op
  obtain ⟨hadded, hrem⟩ := ih
  rw [countDiffLines] at hadded hrem
  rw [kept_append, newLines_append, oldLines_append, length_append, length_append,
    countDiffLines, foldl_append]
  rw [kept] at hadded hrem
  rw [newLines, length_map] at hadded
  rw [oldLines, length_map] at hrem
  cases type <;> simp_all [kept, newLines, oldLines] <;> omega

/-- The lines kept are common to the two texts. -/
theorem exists_sublist_of_kept (ops : List DiffLineOp) :
  ∃ c : List Text, c.Sublist (oldLines ops) ∧ c.Sublist (newLines ops) ∧ c.length = kept ops
  := by
  use (ops.filter fun op => op.type = .context).map DiffLineOp.text
  rw [length_map]
  constructor
  · apply Sublist.map
    apply monotone_filter_right
    intro op
    cases op.type <;> simp
  constructor
  · apply Sublist.map
    apply monotone_filter_right
    intro op
    cases op.type <;> simp
  · rfl

/-! ### The table and the walk -/

/-- The entries from row `i` and column `j` on, in the order of the assignments. -/
def Filled (a b : List Text) (table : Table) (i j : ℕ) : Prop :=
  ∀ i' j', i' ≤ a.length → j' ≤ b.length → i < i' ∨ i = i' ∧ j ≤ j' ∨ j' = b.length →
    Longest (a.drop i') (b.drop j') (table (i' * (b.length + 1) + j'))

/-- Before the first assignment, the entries of the last row and of the last column are right. -/
theorem filled_zero (a b : List Text) :
  Filled a b (fun _ => 0) a.length 0
  := by
  intro i j hi hj hcases
  rcases hcases with hlt | ⟨rfl, -⟩ | rfl
  · omega
  · rw [drop_length]
    apply nil_left
  · rw [drop_length]
    apply nil_right

variable {a b : List Text} {table : Table} {i : ℕ}

/-- The end of a row is the end of the row below. -/
theorem Filled.row (h : Filled a b table (i + 1) 0) :
  Filled a b table i b.length
  := by
  intro i' j' hi' hj' hcases
  apply h i' j' hi' hj'
  omega

variable {j : ℕ}

theorem index_inj {width i' j' : ℕ} (hj : j < width) (hj' : j' < width)
    (h : i * width + j = i' * width + j') :
  i = i' ∧ j = j'
  := by
  have hmod : j = j' := by
    rw [← Nat.mod_eq_of_lt hj, ← Nat.mod_eq_of_lt hj', ← Nat.mul_add_mod' i width j, h,
      Nat.mul_add_mod']
  subst hmod
  constructor
  · apply Nat.eq_of_mul_eq_mul_right (by omega : 0 < width)
    omega
  · rfl

/-- The entry of row `i` and column `j` is put together from those assigned before. -/
theorem Filled.entry (hi : i < a.length) (hj : j < b.length) (h : Filled a b table i (j + 1)) :
  Longest (a.drop i) (b.drop j)
    (if a[i]? = b[j]? then table ((i + 1) * (b.length + 1) + j + 1) + 1
      else max (table ((i + 1) * (b.length + 1) + j)) (table (i * (b.length + 1) + j + 1)))
  := by
  have hsame : a[i]? = b[j]? ↔ a[i] = b[j] := by
    rw [List.getElem?_eq_getElem hi, List.getElem?_eq_getElem hj, Option.some_inj]
  rw [drop_eq_getElem_cons hi, drop_eq_getElem_cons hj]
  split_ifs with heq
  · rw [hsame.mp heq]
    apply Longest.cons
    apply h (i + 1) (j + 1) hi hj
    omega
  apply cons_of_ne (mt hsame.mpr heq)
  · rw [← drop_eq_getElem_cons hj]
    apply h (i + 1) j hi hj.le
    omega
  · rw [← drop_eq_getElem_cons hi]
    apply h i (j + 1) hi.le hj
    omega

/-- One assignment. An entry is not larger than the table allows. -/
theorem Filled.set {value : ℕ} (hi : i < a.length)
    (hj : j < b.length) (hlimit : a.length * b.length ≤ lcsCellLimit)
    (h : Filled a b table i (j + 1)) (hvalue : Longest (a.drop i) (b.drop j) value) :
  Filled a b (table.set (i * (b.length + 1) + j) value) i j
  := by
  have hsmall : value < 2 ^ 32 := by
    calc value ≤ (a.drop i).length := hvalue.le_length_left
      _ ≤ a.length := (drop_sublist i a).length_le
      _ ≤ a.length * b.length := Nat.le_mul_of_pos_right _ (by omega)
      _ ≤ lcsCellLimit := hlimit
      _ < 2 ^ 32 := by decide
  intro i' j' hi' hj' hcases
  rw [Table.set, Nat.mod_eq_of_lt hsmall]
  by_cases hsame : i' * (b.length + 1) + j' = i * (b.length + 1) + j
  · obtain ⟨rfl, rfl⟩ := index_inj (by omega) (by omega) hsame
    rw [Function.update_self]
    exact hvalue
  rw [Function.update_of_ne hsame]
  apply h i' j' hi' hj'
  rcases hcases with hlt | ⟨rfl, hle⟩ | hlast
  · left
    exact hlt
  · right
    left
    have hne : j ≠ j' := fun heq => hsame (by rw [heq])
    omega
  · right
    right
    exact hlast

theorem filled_fillRow (hi : i < a.length)
    (hlimit : a.length * b.length ≤ lcsCellLimit) (hj : j ≤ b.length) (h : Filled a b table i j) :
  Filled a b (fillRow a b i j table) i 0
  := by
  induction j generalizing table with
  | zero => exact h
  | succ j ih =>
    apply ih (by omega)
    apply Filled.set hi hj hlimit h
    apply h.entry hi hj

/-- The entries of the rows assigned. -/
theorem filled_fillRows (hlimit : a.length * b.length ≤ lcsCellLimit)
    (hi : i ≤ a.length) (h : Filled a b table i 0) :
  Filled a b (fillRows a b i table) 0 0
  := by
  induction i generalizing table with
  | zero => exact h
  | succ i ih =>
    apply ih (by omega)
    apply filled_fillRow hi hlimit le_rfl h.row

theorem filled_lcsTable (hlimit : a.length * b.length ≤ lcsCellLimit) :
  Filled a b (lcsTable a b) 0 0
  := filled_fillRows hlimit le_rfl (filled_zero a b)

theorem oldLines_walk (table : Table) (a b : List Text) (i j : ℕ) :
  oldLines (walk table a b i j) = a.drop i
  := by
  fun_induction walk table a b i j with
  | case1 i j h heq ih | case2 i j h hne hle ih =>
    rw [drop_eq_getElem_cons h.1, ← ih]
    rfl
  | case3 i j h hne hlt ih =>
    rw [← ih]
    rfl
  | case4 i j h =>
    rw [oldLines_append, oldLines_map, oldLines_map, if_pos rfl, append_nil, if_neg]
    apply LineType.noConfusion

theorem newLines_walk (table : Table) (a b : List Text) (i j : ℕ) :
  newLines (walk table a b i j) = b.drop j
  := by
  fun_induction walk table a b i j with
  | case1 i j h heq ih =>
    rw [drop_eq_getElem_cons h.2, ← ih, ← heq]
    rfl
  | case2 i j h hne hle ih =>
    rw [← ih]
    rfl
  | case3 i j h hne hlt ih =>
    rw [drop_eq_getElem_cons h.2, ← ih]
    rfl
  | case4 i j h =>
    rw [newLines_append, newLines_map, newLines_map, if_pos rfl, nil_append, if_neg]
    apply LineType.noConfusion

/-- The walk keeps as many lines as the entry it starts from says. -/
theorem longest_walk (hfilled : Filled a b table 0 0) (i j : ℕ) :
  Longest (a.drop i) (b.drop j) (kept (walk table a b i j))
  := by
  have entry (i' j' : ℕ) (hi : i' ≤ a.length) (hj : j' ≤ b.length) :
      Longest (a.drop i') (b.drop j') (table (i' * (b.length + 1) + j')) := by
    apply hfilled i' j' hi hj
    omega
  fun_induction walk table a b i j with
  | case1 i j h heq ih =>
    rw [drop_eq_getElem_cons h.1, drop_eq_getElem_cons h.2, heq]
    apply ih.cons
  | case2 i j h hne hle ih =>
    have hdown := entry (i + 1) j h.1 h.2.le
    have hright := entry i (j + 1) h.1.le h.2
    have hkept := ih.unique hdown
    rw [drop_eq_getElem_cons h.2] at hdown
    rw [drop_eq_getElem_cons h.1, ← Nat.add_assoc] at hright
    have hmax := cons_of_ne hne hdown hright
    rw [max_eq_left hle, ← hkept, ← drop_eq_getElem_cons h.1, ← drop_eq_getElem_cons h.2] at hmax
    exact hmax
  | case3 i j h hne hlt ih =>
    have hdown := entry (i + 1) j h.1 h.2.le
    have hright := entry i (j + 1) h.1.le h.2
    have hkept := ih.unique hright
    rw [drop_eq_getElem_cons h.2] at hdown
    rw [drop_eq_getElem_cons h.1] at hright
    rw [← Nat.add_assoc] at hright hkept
    have hmax := cons_of_ne hne hdown hright
    rw [max_eq_right (by omega), ← hkept, ← drop_eq_getElem_cons h.1,
      ← drop_eq_getElem_cons h.2] at hmax
    exact hmax
  | case4 i j h =>
    rw [kept_append, kept_map, kept_map]
    rcases not_and_or.mp h with hi | hj
    · rw [drop_eq_nil_of_le (not_lt.mp hi)]
      apply nil_left
    · rw [drop_eq_nil_of_le (not_lt.mp hj)]
      apply nil_right

/-! ### What the lists have in common -/

theorem take_commonStart (a b : List Text) :
  a.take (commonStart a b) = b.take (commonStart a b)
  := by
  fun_induction commonStart a b with
  | case1 line a b ih => rw [take_succ_cons, take_succ_cons, ih]
  | case2 | case3 => rfl

theorem commonStart_le (a b : List Text) :
  commonStart a b ≤ a.length ∧ commonStart a b ≤ b.length
  := by
  fun_induction commonStart a b with
  | case1 line a b ih => simp [ih]
  | case2 | case3 => simp

/-- The lines from the two ends on are the same, and the ends are not below the start. -/
theorem commonEnd_spec {start endA endB : ℕ} (hA : endA ≤ a.length)
    (hB : endB ≤ b.length) (hdrop : a.drop endA = b.drop endB) (hstartA : start ≤ endA)
    (hstartB : start ≤ endB) :
  a.drop (commonEnd a b start endA endB).1 = b.drop (commonEnd a b start endA endB).2 ∧
    start ≤ (commonEnd a b start endA endB).1 ∧ start ≤ (commonEnd a b start endA endB).2
  := by
  fun_induction commonEnd a b start endA endB with
  | case1 endA endB h ih =>
    obtain ⟨hltA, hltB, heq⟩ := h
    rw [List.getElem?_eq_getElem hA, List.getElem?_eq_getElem hB, Option.some_inj] at heq
    apply ih
    · omega
    · omega
    · rw [drop_eq_getElem_cons hA, drop_eq_getElem_cons hB, heq, hdrop]
    · omega
    · omega
  | case2 endA endB h | case3 endA endB h => exact ⟨hdrop, hstartA, hstartB⟩

theorem take_append_slice (lines : List Text) {start finish : ℕ} (h : start ≤ finish) :
  lines.take start ++ slice lines start finish ++ lines.drop finish = lines
  := by
  have htake : (lines.take finish).take start = lines.take start := by
    rw [take_take, min_eq_left h]
  rw [slice, ← htake, take_append_drop, take_append_drop]

/-- Two lists of lines, cut into what is common at the beginning, the middle, and what is common at
the end. -/
structure Cut (a b front back : List Text) : Prop where
  left : front ++ (middle a b).1 ++ back = a
  right : front ++ (middle a b).2 ++ back = b

/-- What is common is part of a longest common subsequence. -/
theorem Cut.longest {front back : List Text} (h : Cut a b front back) {n : ℕ}
    (hmid : Longest (middle a b).1 (middle a b).2 n) :
  Longest a b (front.length + n + back.length)
  := by
  have hwhole := (hmid.append_left front).append_right back
  rw [h.left, h.right] at hwhole
  exact hwhole

theorem cut_middle (a b : List Text) :
  Cut a b (a.take (commonStart a b)) (a.drop (commonEnd a b (commonStart a b) a.length b.length).1)
  := by
  obtain ⟨hleA, hleB⟩ := commonStart_le a b
  have hnil : a.drop a.length = b.drop b.length := by
    rw [drop_length, drop_length]
  obtain ⟨hdrop, hstartA, hstartB⟩ := commonEnd_spec le_rfl le_rfl hnil hleA hleB
  constructor
  · apply take_append_slice a hstartA
  · rw [hdrop, take_commonStart]
    apply take_append_slice b hstartB

/-! ### The diff is right and minimal -/

/-- A list of lines is a diff of two texts, a minimal one where the lines between have a table. -/
structure Diffs (before after : Text) (ops : List DiffLineOp) : Prop where
  old : oldLines ops = splitLines before
  new : newLines ops = splitLines after
  longest :
    let mid := middle (splitLines before) (splitLines after)
    mid.1.length * mid.2.length ≤ lcsCellLimit →
      Longest (splitLines before) (splitLines after) (kept ops)
  minimal :
    let mid := middle (splitLines before) (splitLines after)
    mid.1.length * mid.2.length ≤ lcsCellLimit →
      ∀ ops' : List DiffLineOp, oldLines ops' = splitLines before →
        newLines ops' = splitLines after → (countDiffLines ops).1 + (countDiffLines ops).2 ≤
            (countDiffLines ops').1 + (countDiffLines ops').2

/-- A diff that keeps a longest common subsequence adds and removes the fewest lines. -/
theorem countDiffLines_le {ops ops' : List DiffLineOp}
    (hlongest : Longest (oldLines ops) (newLines ops) (kept ops))
    (hold : oldLines ops' = oldLines ops) (hnew : newLines ops' = newLines ops) :
  (countDiffLines ops).1 + (countDiffLines ops).2 ≤
    (countDiffLines ops').1 + (countDiffLines ops').2
  := by
  obtain ⟨hadded, hrem⟩ := countDiffLines_add_kept ops
  obtain ⟨hadded', hrem'⟩ := countDiffLines_add_kept ops'
  obtain ⟨c, hcold, hcnew, hc⟩ := exists_sublist_of_kept ops'
  rw [hold] at hcold hrem'
  rw [hnew] at hcnew hadded'
  have hle : kept ops' ≤ kept ops := hc ▸ hlongest.bound c hcold hcnew
  omega

/-- The lines between, whichever way they are compared. -/
theorem middleOps_spec (midA midB : List Text) :
  let ops := if midA.length * midB.length ≤ lcsCellLimit then lcsOps midA midB
    else midA.map (DiffLineOp.mk .del) ++ midB.map (DiffLineOp.mk .add)
  oldLines ops = midA ∧ newLines ops = midB ∧
    (midA.length * midB.length ≤ lcsCellLimit → Longest midA midB (kept ops))
  := by
  intro ops
  by_cases hlimit : midA.length * midB.length ≤ lcsCellLimit
  · have hops : ops = lcsOps midA midB := if_pos hlimit
    rw [hops]
    constructor
    · apply oldLines_walk
    constructor
    · apply newLines_walk
    · intro _
      apply longest_walk (filled_lcsTable hlimit) 0 0
  have hops : ops = midA.map (DiffLineOp.mk .del) ++ midB.map (DiffLineOp.mk .add) :=
    if_neg hlimit
  rw [hops]
  constructor
  · simp [oldLines_append]
  constructor
  · simp [newLines_append]
  · intro h
    contradiction

end Shared.Diff
