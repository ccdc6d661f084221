import VolundCode.Shared.Diff

/-!
# Unified hunks

`unifiedDiffHunks` groups the lines that are added and removed, with the unchanged lines around
them, into hunks. The header of a hunk says where its lines are in the old and in the new text, a
range without lines by the line before it. `applyHunks` reads the headers again and applies the
hunks to the old lines. The main result is `unified_unifiedDiffHunks`: the hunks are in order and
apart, every line added or removed is in one of them, and applied to the old lines they make the new
ones.
-/

namespace Shared.Diff

open CodeUnits List Nat

/-- A hunk: the pair of ranges, and its lines. -/
structure DiffHunk where
  header : String
  lines : List DiffLineOp
  deriving DecidableEq

/-- A range of lines from a line on. -/
def rangeHeader (start count : ℕ) : String :=
  if count = 0 then toString (start - 1) ++ ",0"
  else if count = 1 then toString start
  else toString start ++ "," ++ toString count

/-- The places of the lines that are added or removed. -/
def changes (ops : List DiffLineOp) : List ℕ :=
  (List.range ops.length).filter fun i => ops[i]?.any fun op => op.type ≠ .context

/-- The lines between two places. -/
def span (ops : List DiffLineOp) (start finish : ℕ) : List DiffLineOp :=
  (ops.take finish).drop start

/-- The old and the new line after some lines. -/
def tally (lines : List DiffLineOp) (at_ : ℕ × ℕ) : ℕ × ℕ :=
  lines.foldl (fun at_ op =>
    match op.type with
    | .add => (at_.1, at_.2 + 1)
    | .del => (at_.1 + 1, at_.2)
    | .context => (at_.1 + 1, at_.2 + 1)) at_

/-- The end of a group and the changes after it: a change is of the group if it is not far from the
one before. -/
def extend (context groupEnd : ℕ) : List ℕ → ℕ × List ℕ
  | [] => (groupEnd, [])
  | next :: rest =>
    if next - groupEnd ≤ context * 2 then extend context next rest else (groupEnd, next :: rest)

theorem length_extend (context groupEnd : ℕ) (rest : List ℕ) :
  (extend context groupEnd rest).2.length ≤ rest.length
  := by
  induction rest generalizing groupEnd with
  | nil => exact le_rfl
  | cons next rest ih =>
  rw [extend]
  split_ifs
  · have hle := ih next
    rw [length_cons]
    omega
  · exact le_rfl

/-- The hunks for the changes from a place on. -/
def hunksFrom (ops : List DiffLineOp) (context : ℕ) (line : ℕ × ℕ) (cursor : ℕ) :
    List ℕ → List DiffHunk
  | [] => []
  | groupStart :: rest =>
    let group := extend context groupStart rest
    let start := groupStart - context
    let finish := min ops.length (group.1 + 1 + context)
    let from_ := tally (span ops cursor start) line
    let lines := span ops start finish
    let count := tally lines (0, 0)
    { header := "-" ++ rangeHeader from_.1 count.1 ++ " +" ++ rangeHeader from_.2 count.2
      lines := lines } ::
      hunksFrom ops context (from_.1 + count.1, from_.2 + count.2) finish group.2
  termination_by cs => cs.length
  decreasing_by
    have hle := length_extend context groupStart rest
    rw [List.length_cons]
    omega

def unifiedDiffHunks (ops : List DiffLineOp) (context : ℕ) : List DiffHunk :=
  hunksFrom ops context (1, 1) 0 (changes ops)

/-! ### Applying hunks -/

/-- A number in a header. -/
def readNumber (text : List Char) : Option ℕ :=
  if text ≠ [] ∧ text.all Char.isDigit then some (Nat.ofDigitChars 10 text 0) else none

/-- A range in a header: the number of a line, and of lines, which is 1 if it is not said. -/
def readRange (text : List Char) : Option (ℕ × ℕ) :=
  match text.dropWhile (· ≠ ',') with
  | [] => (readNumber text).map fun start => (start, 1)
  | _ :: rest =>
    (readNumber (text.takeWhile (· ≠ ','))).bind fun start =>
      (readNumber rest).map fun count => (start, count)

/-- The ranges of a header after its first character. -/
def readRanges (text : List Char) : Option ((ℕ × ℕ) × (ℕ × ℕ)) :=
  match text.dropWhile (· ≠ ' ') with
  | ' ' :: '+' :: new =>
    (readRange (text.takeWhile (· ≠ ' '))).bind fun old =>
      (readRange new).map fun new => (old, new)
  | _ => none

/-- The ranges of a header. -/
def readHeader (header : String) : Option ((ℕ × ℕ) × (ℕ × ℕ)) :=
  match header.toList with
  | '-' :: text => readRanges text
  | _ => none

/-- How many lines are before a range. A range without lines is after the line it names. -/
def linesBefore (range : ℕ × ℕ) : Option ℕ :=
  if range.2 = 0 then some range.1 else if range.1 = 0 then none else some (range.1 - 1)

/-- The new lines that hunks make of the old ones, from the place on that has been read and written.
A hunk has to come after what has been read, the lines it keeps and removes have to be the old lines
at its place, and it has to say where its lines will be and how many they are. -/
def applyHunks (old : List Text) (read written : ℕ) : List DiffHunk → Option (List Text)
  | [] => some (old.drop read)
  | hunk :: hunks =>
    match readHeader hunk.header with
    | none => none
    | some (oldRange, newRange) =>
      match linesBefore oldRange, linesBefore newRange with
      | some oldPlace, some newPlace =>
        if read ≤ oldPlace ∧ oldLines hunk.lines = (old.drop oldPlace).take oldRange.2 ∧
            (oldLines hunk.lines).length = oldRange.2 ∧ newPlace = written + (oldPlace - read) ∧
            (newLines hunk.lines).length = newRange.2 then
          (applyHunks old (oldPlace + oldRange.2) (newPlace + newRange.2) hunks).map fun rest =>
            (old.take oldPlace).drop read ++ newLines hunk.lines ++ rest
        else none
      | _, _ => none

/-- The hunks are at places in order and apart, every line added or removed is at one of the places,
and the hunks make the new lines of the old ones. -/
structure Unified (ops : List DiffLineOp) (hunks : List DiffHunk) : Prop where
  placed : ∃ places : List (ℕ × ℕ),
    List.Forall₂ (fun hunk place => place.1 < place.2 ∧ place.2 ≤ ops.length ∧
      hunk.lines = span ops place.1 place.2) hunks places ∧
    places.Pairwise (fun p q => p.2 ≤ q.1) ∧
    ∀ i op, ops[i]? = some op → op.type ≠ .context → ∃! p, p ∈ places ∧ p.1 ≤ i ∧ i < p.2
  applied : applyHunks (oldLines ops) 0 0 hunks = some (newLines ops)

/-! ### Headers -/

theorem isDigit_of_mem {n : ℕ} {c : Char} (h : c ∈ Nat.toDigits 10 n) :
  c.isDigit
  := Nat.isDigit_of_mem_toDigits (by decide) (by decide) h

theorem readNumber_toDigits (n : ℕ) :
  readNumber (Nat.toDigits 10 n) = some n
  := by
  have hdig : toDigits 10 n ≠ [] ∧ (toDigits 10 n).all Char.isDigit := by
    use toDigits_ne_nil
    rw [all_eq_true]
    intro c hc
    apply isDigit_of_mem hc
  rw [readNumber, if_pos hdig, ofDigitChars_ten_toDigits]

/-- A digit is not one of the characters between numbers. -/
theorem ne_of_mem_toDigits {n : ℕ} {c d : Char} (h : c ∈ Nat.toDigits 10 n)
    (hd : d.isDigit = false) :
  c ≠ d
  := by
  rintro rfl
  rw [isDigit_of_mem h] at hd
  cases hd

/-- What is before and from a character that is not among those before it. -/
theorem takeWhile_dropWhile {c : Char} {before : List Char} (h : ∀ d ∈ before, d ≠ c)
    (rest : List Char) :
  (before ++ c :: rest).takeWhile (· ≠ c) = before ∧
    (before ++ c :: rest).dropWhile (· ≠ c) = c :: rest
  := by
  have hall : ∀ d ∈ before, (decide (d ≠ c)) := by
    intro d hd
    exact decide_eq_true (h d hd)
  constructor
  · rw [takeWhile_append_of_pos hall]
    simp
  · rw [dropWhile_append_of_pos hall]
    simp

variable {start : ℕ}

/-- The range of a header is read again, and says how many lines are before it. -/
theorem readRange_rangeHeader (hstart : 1 ≤ start) (count : ℕ) :
  (∀ c ∈ (rangeHeader start count).toList, c ≠ ' ') ∧
    ∃ range, readRange (rangeHeader start count).toList = some range ∧ range.2 = count ∧
      linesBefore range = some (start - 1)
  := by
  have hdig (n : ℕ) : ∀ c ∈ toDigits 10 n, c ≠ ' ' := fun c hc => ne_of_mem_toDigits hc rfl
  have hpair (m n : ℕ) : readRange (toDigits 10 m ++ ',' :: toDigits 10 n) = some (m, n) := by
    have hcomma : ∀ c ∈ toDigits 10 m, c ≠ ',' := fun c hc => ne_of_mem_toDigits hc rfl
    obtain ⟨htake, hdrop⟩ := takeWhile_dropWhile hcomma (toDigits 10 n)
    rw [readRange, hdrop]
    dsimp only
    rw [htake, readNumber_toDigits, readNumber_toDigits]
    rfl
  rw [rangeHeader]
  split_ifs with hzero hone
  · have hlist : (toString (start - 1) ++ ",0").toList =
        toDigits 10 (start - 1) ++ ',' :: toDigits 10 0 := by
      simp [toString_eq_repr, toList_repr]
    rw [hlist]
    constructor
    · intro c hc
      rcases mem_append.mp hc with hc | hc
      · apply hdig _ c hc
      · rcases mem_cons.mp hc with rfl | hc
        · decide
        · apply hdig _ c hc
    · use (start - 1, 0), hpair (start - 1) 0, hzero.symm
      rfl
  · have hlist : (toString start).toList = toDigits 10 start := by
      simp [toString_eq_repr, toList_repr]
    have hdrop : (toDigits 10 start).dropWhile (· ≠ ',') = [] := by
      apply dropWhile_eq_nil_iff.mpr
      intro c hc
      exact decide_eq_true (ne_of_mem_toDigits hc rfl)
    rw [hlist]
    use hdig start, (start, 1)
    constructor
    · rw [readRange, hdrop]
      dsimp only
      rw [readNumber_toDigits]
      rfl
    · use hone.symm
      have hne : start ≠ 0 := by omega
      rw [linesBefore, if_neg Nat.one_ne_zero, if_neg hne]
  have hlist : (toString start ++ "," ++ toString count).toList =
      toDigits 10 start ++ ',' :: toDigits 10 count := by
    simp [toString_eq_repr, toList_repr]
  rw [hlist]
  constructor
  · intro c hc
    rcases mem_append.mp hc with hc | hc
    · apply hdig _ c hc
    · rcases mem_cons.mp hc with rfl | hc
      · decide
      · apply hdig _ c hc
  · use (start, count), hpair start count, rfl
    have hne : start ≠ 0 := by omega
    rw [linesBefore, if_neg hzero, if_neg hne]

/-- The ranges of a header are read again. -/
theorem readHeader_eq {oldStart newStart : ℕ} (hold : 1 ≤ oldStart) (hnew : 1 ≤ newStart)
    (oldCount newCount : ℕ) :
  ∃ oldRange newRange,
    readHeader ("-" ++ rangeHeader oldStart oldCount ++ " +" ++ rangeHeader newStart newCount) =
      some (oldRange, newRange) ∧
    oldRange.2 = oldCount ∧ linesBefore oldRange = some (oldStart - 1) ∧
    newRange.2 = newCount ∧ linesBefore newRange = some (newStart - 1)
  := by
  obtain ⟨hspace, oldRange, holdRange, holdCount, holdBefore⟩ := readRange_rangeHeader hold oldCount
  obtain ⟨-, newRange, hnewRange, hnewCount, hnewBefore⟩ := readRange_rangeHeader hnew newCount
  have hlist : ("-" ++ rangeHeader oldStart oldCount ++ " +" ++
      rangeHeader newStart newCount).toList = '-' :: ((rangeHeader oldStart oldCount).toList ++
        ' ' :: '+' :: (rangeHeader newStart newCount).toList) := by
    simp
  obtain ⟨htake, hdrop⟩ := takeWhile_dropWhile hspace
    ('+' :: (rangeHeader newStart newCount).toList)
  use oldRange, newRange
  constructor
  · have hranges : readHeader ("-" ++ rangeHeader oldStart oldCount ++ " +" ++
        rangeHeader newStart newCount) = readRanges ((rangeHeader oldStart oldCount).toList ++
          ' ' :: '+' :: (rangeHeader newStart newCount).toList) := by
      rw [readHeader, hlist]
      rfl
    have hsplit : readRanges ((rangeHeader oldStart oldCount).toList ++
        ' ' :: '+' :: (rangeHeader newStart newCount).toList) =
        (readRange (rangeHeader oldStart oldCount).toList).bind fun old =>
          (readRange (rangeHeader newStart newCount).toList).map fun new => (old, new) := by
      rw [readRanges, hdrop, htake]
      rfl
    rw [hranges, hsplit, holdRange, hnewRange]
    rfl
  · exact ⟨holdCount, holdBefore, hnewCount, hnewBefore⟩

/-! ### Groups -/

/-- A group ends with one of its changes, no change of it is after its end, and the change after it
is far from its end. -/
theorem extend_spec (context groupEnd : ℕ) (rest : List ℕ)
    (hrest : (groupEnd :: rest).Pairwise (· < ·)) :
  ∃ taken, rest = taken ++ (extend context groupEnd rest).2 ∧
    (extend context groupEnd rest).1 ∈ groupEnd :: taken ∧
    (∀ i ∈ groupEnd :: taken, i ≤ (extend context groupEnd rest).1) ∧
    ∀ i ∈ (extend context groupEnd rest).2, (extend context groupEnd rest).1 + context * 2 < i
  := by
  induction rest generalizing groupEnd with
  | nil =>
    use []
    simp [extend]
  | cons next rest ih =>
  obtain ⟨hfirst, hnext⟩ := pairwise_cons.mp hrest
  have hlt := hfirst next mem_cons_self
  rw [extend]
  split_ifs with hnear
  · obtain ⟨taken, hrest, hmem, hle, hfar⟩ := ih next hnext
    use next :: taken
    constructor
    · rw [cons_append, ← hrest]
    use mem_cons_of_mem _ hmem
    constructor
    · intro i hi
      rcases mem_cons.mp hi with rfl | hi
      · have hend := hle next mem_cons_self
        omega
      · apply hle i hi
    · apply hfar
  use []
  constructor
  · rfl
  use mem_singleton.mpr rfl
  constructor
  · intro i hi
    rw [mem_singleton.mp hi]
  intro i hi
  rcases mem_cons.mp hi with rfl | hi
  · dsimp only
    omega
  · have hlater := (pairwise_cons.mp hnext).1 i hi
    dsimp only
    omega

/-! ### Lines -/

theorem tally_eq (lines : List DiffLineOp) (at_ : ℕ × ℕ) :
  tally lines at_ = (at_.1 + (oldLines lines).length, at_.2 + (newLines lines).length)
  := by
  induction lines generalizing at_ with
  | nil => rfl
  | cons op lines ih =>
  have htally : tally (op :: lines) at_ = tally lines (tally [op] at_) := rfl
  have hold : oldLines (op :: lines) = oldLines [op] ++ oldLines lines := oldLines_append [op] lines
  have hnew : newLines (op :: lines) = newLines [op] ++ newLines lines := newLines_append [op] lines
  rw [htally, ih, hold, hnew, length_append, length_append]
  obtain ⟨type, text⟩ := op
  cases type
  all_goals
    simp [tally, oldLines, newLines]
    try omega

variable {finish : ℕ}

theorem take_append_span (ops : List DiffLineOp) (h : start ≤ finish) :
  ops.take start ++ span ops start finish = ops.take finish
  := by
  have htake : ops.take start = (ops.take finish).take start := by
    rw [take_take, min_eq_left h]
  rw [htake, span, take_append_drop]

/-- Lines that are unchanged are the same in both texts. -/
theorem oldLines_eq_newLines {lines : List DiffLineOp} (h : ∀ op ∈ lines, op.type = .context) :
  oldLines lines = newLines lines
  := by
  have hold : lines.filter (fun op => op.type ≠ .add) = lines := by
    apply filter_eq_self.mpr
    intro op hop
    rw [h op hop]
    rfl
  have hnew : lines.filter (fun op => op.type ≠ .del) = lines := by
    apply filter_eq_self.mpr
    intro op hop
    rw [h op hop]
    rfl
  rw [oldLines, newLines, hold, hnew]

/-! ### The hunks -/

/-- The changes from a place on are still to come, and the lines around them too. -/
structure AtGroup (ops : List DiffLineOp) (context cursor : ℕ) (cs : List ℕ) : Prop where
  ascending : cs.Pairwise (· < ·)
  mem_iff : ∀ i, i ∈ cs ↔ cursor ≤ i ∧ ∃ op, ops[i]? = some op ∧ op.type ≠ .context
  clear : ∀ i ∈ cs, cursor ≤ i - context
  le_length : cursor ≤ ops.length

/-- Before the first group all changes are still to come. -/
theorem atGroup_changes (ops : List DiffLineOp) (context : ℕ) :
  AtGroup ops context 0 (changes ops)
  := by
  constructor
  · apply List.Pairwise.filter
    apply pairwise_lt_range
  · intro i
    rw [changes, mem_filter, mem_range]
    constructor
    · rintro ⟨hi, hany⟩
      use zero_le i, ops[i], List.getElem?_eq_getElem hi
      rw [List.getElem?_eq_getElem hi] at hany
      simpa using hany
    rintro ⟨-, op, hop, htype⟩
    obtain ⟨hi, -⟩ := List.getElem?_eq_some_iff.mp hop
    use hi
    rw [hop]
    simpa using htype
  · intro i _
    apply Nat.zero_le
  · apply Nat.zero_le

variable {ops : List DiffLineOp}

/-- A group: its hunk begins after what has been read, has all its changes, and leaves the changes
after it to come. -/
theorem AtGroup.step {context cursor groupStart : ℕ} {rest : List ℕ}
    (h : AtGroup ops context cursor (groupStart :: rest)) :
  let group := extend context groupStart rest
  let start := groupStart - context
  let finish := min ops.length (group.1 + 1 + context)
  cursor ≤ start ∧ start < finish ∧ (∀ op ∈ span ops cursor start, op.type = .context) ∧
    (∀ i ∈ groupStart :: rest, i ∉ group.2 → start ≤ i ∧ i < finish) ∧
    AtGroup ops context finish group.2
  := by
  obtain ⟨taken, hrest, hmem, hle, hfar⟩ := extend_spec context groupStart rest h.ascending
  obtain ⟨group, hgroup⟩ : ∃ group, group = extend context groupStart rest := ⟨_, rfl⟩
  rw [← hgroup] at hrest hmem hle hfar
  dsimp only
  rw [← hgroup]
  have hlength : ∀ i ∈ groupStart :: rest, i < ops.length := by
    intro i hi
    obtain ⟨-, op, hop, -⟩ := (h.mem_iff i).mp hi
    exact (List.getElem?_eq_some_iff.mp hop).1
  have htaken : ∀ i ∈ groupStart :: taken, i ∈ groupStart :: rest := by
    intro i hi
    rw [hrest]
    rcases mem_cons.mp hi with rfl | hi
    · exact mem_cons_self
    · exact mem_cons_of_mem _ (mem_append_left _ hi)
  have hend := hlength group.1 (htaken group.1 hmem)
  have hstart := hle groupStart mem_cons_self
  have hclear := h.clear groupStart mem_cons_self
  have hfirst : ∀ i ∈ groupStart :: rest, groupStart ≤ i := by
    intro i hi
    rcases mem_cons.mp hi with rfl | hi
    · exact le_rfl
    · exact ((pairwise_cons.mp h.ascending).1 i hi).le
  constructor
  · exact hclear
  constructor
  · omega
  constructor
  · intro op hop
    by_contra htype
    obtain ⟨k, hk, hget⟩ := mem_iff_getElem.mp hop
    have hop' : ops[cursor + k]? = some op ∧ cursor + k < groupStart - context := by
      simp only [span, length_drop, length_take] at hk
      simp only [span, getElem_drop, getElem_take] at hget
      constructor
      · rw [List.getElem?_eq_some_iff]
        use by omega
      · omega
    have hchg := (h.mem_iff (cursor + k)).mpr ⟨by omega, op, hop'.1, htype⟩
    have hlow := hfirst _ hchg
    omega
  constructor
  · intro i hi hnot
    have hi' : i ∈ groupStart :: taken := by
      rcases mem_cons.mp hi with rfl | hi
      · exact mem_cons_self
      rw [hrest] at hi
      rcases mem_append.mp hi with hi | hi
      · exact mem_cons_of_mem _ hi
      · exact absurd hi hnot
    have hlow := hfirst i hi
    have hhigh := hle i hi'
    omega
  constructor
  · have hsub : group.2.Sublist (groupStart :: rest) := by
      rw [hrest]
      exact (sublist_append_right _ _).cons _
    exact h.ascending.sublist hsub
  · intro i
    constructor
    · intro hi
      have hi' : i ∈ groupStart :: rest := by
        rw [hrest]
        exact mem_cons_of_mem _ (mem_append_right _ hi)
      have hlate := hfar i hi
      have hlen := hlength i hi'
      use by omega
      exact ((h.mem_iff i).mp hi').2
    rintro ⟨hlate, op, hop, htype⟩
    have hi := (h.mem_iff i).mpr ⟨by omega, op, hop, htype⟩
    have hlen := hlength i hi
    by_contra hnot
    have hi' : i ∈ groupStart :: taken := by
      rcases mem_cons.mp hi with rfl | hi
      · exact mem_cons_self
      rw [hrest] at hi
      rcases mem_append.mp hi with hi | hi
      · exact mem_cons_of_mem _ hi
      · exact absurd hi hnot
    have hhigh := hle i hi'
    omega
  · intro i hi
    have hlate := hfar i hi
    omega
  · apply min_le_left

/-- Where the lines up to a place end in the old and in the new text. -/
theorem oldLines_take_append (ops : List DiffLineOp) (h : start ≤ finish) :
  oldLines (ops.take finish) = oldLines (ops.take start) ++ oldLines (span ops start finish) ∧
    newLines (ops.take finish) = newLines (ops.take start) ++ newLines (span ops start finish)
  := by
  rw [← take_append_span ops h, oldLines_append, newLines_append]
  exact ⟨rfl, rfl⟩

theorem drop_eq_span_append (h : start ≤ finish) :
  ops.drop start = span ops start finish ++ ops.drop finish
  := by
  have hdrop : ops.drop finish = (ops.drop start).drop (finish - start) := by
    rw [drop_drop]
    congr 1
    omega
  rw [hdrop, span, drop_take, take_append_drop]

/-- A hunk is applied: the unchanged lines before it are kept, and the hunks after it are applied
after it. -/
theorem applyHunks_cons {cursor : ℕ} (hcur : cursor ≤ start)
    (hstart : start ≤ finish) (hctx : ∀ op ∈ span ops cursor start, op.type = .context)
    {hunks : List DiffHunk} {hunk : DiffHunk} (hlines : hunk.lines = span ops start finish)
    (hheader : hunk.header = "-" ++ rangeHeader ((oldLines (ops.take start)).length + 1)
      (oldLines (span ops start finish)).length ++ " +" ++
      rangeHeader ((newLines (ops.take start)).length + 1)
      (newLines (span ops start finish)).length)
    (happly : applyHunks (oldLines ops) (oldLines (ops.take finish)).length
      (newLines (ops.take finish)).length hunks = some (newLines (ops.drop finish))) :
  applyHunks (oldLines ops) (oldLines (ops.take cursor)).length (newLines (ops.take cursor)).length
    (hunk :: hunks) = some (newLines (ops.drop cursor))
  := by
  obtain ⟨oldRange, newRange, hread, holdCount, holdBefore, hnewCount, hnewBefore⟩ :=
    readHeader_eq (le_add_left 1 (oldLines (ops.take start)).length)
      (le_add_left 1 (newLines (ops.take start)).length)
      (oldLines (span ops start finish)).length (newLines (span ops start finish)).length
  rw [Nat.add_sub_cancel] at holdBefore hnewBefore
  obtain ⟨holdGap, hnewGap⟩ := oldLines_take_append ops hcur
  obtain ⟨holdHunk, hnewHunk⟩ := oldLines_take_append ops hstart
  have hgap := oldLines_eq_newLines hctx
  have hold : oldLines ops = oldLines (ops.take start) ++ (oldLines (span ops start finish) ++
      oldLines (ops.drop finish)) := by
    rw [← oldLines_append, ← oldLines_append, ← drop_eq_span_append hstart, take_append_drop]
  have holdTake : (oldLines ops).take (oldLines (ops.take start)).length =
      oldLines (ops.take start) := by
    rw [hold, take_left]
  have holdDrop : ((oldLines ops).drop (oldLines (ops.take start)).length).take
      (oldLines (span ops start finish)).length = oldLines (span ops start finish) := by
    rw [hold, drop_left, take_left]
  have hnew : newLines (ops.drop cursor) = newLines (span ops cursor start) ++
      newLines (span ops start finish) ++ newLines (ops.drop finish) := by
    rw [drop_eq_span_append hcur, drop_eq_span_append hstart, newLines_append, newLines_append,
      append_assoc]
  have hcond : (oldLines (ops.take cursor)).length ≤ (oldLines (ops.take start)).length ∧
      oldLines hunk.lines =
        ((oldLines ops).drop (oldLines (ops.take start)).length).take oldRange.2 ∧
      (oldLines hunk.lines).length = oldRange.2 ∧
      (newLines (ops.take start)).length = (newLines (ops.take cursor)).length +
        ((oldLines (ops.take start)).length - (oldLines (ops.take cursor)).length) ∧
      (newLines hunk.lines).length = newRange.2 := by
    rw [hlines, holdCount, holdDrop, hnewCount, holdGap, hnewGap, length_append,
      length_append, hgap]
    exact ⟨by omega, rfl, rfl, by omega, rfl⟩
  rw [applyHunks, hheader, hread]
  dsimp only
  rw [holdBefore, hnewBefore]
  dsimp only
  rw [if_pos hcond, holdTake, hlines, holdCount, hnewCount]
  rw [← length_append, ← length_append, ← holdHunk, ← hnewHunk, happly, Option.map_some,
    holdGap, drop_left, hgap, hnew]

/-- What the hunks for the changes from a place on are. -/
structure HunksFrom (ops : List DiffLineOp) (cursor : ℕ) (cs : List ℕ) (hunks : List DiffHunk) :
    Prop where
  placed : ∃ places : List (ℕ × ℕ),
    List.Forall₂ (fun hunk place => place.1 < place.2 ∧ place.2 ≤ ops.length ∧
      hunk.lines = span ops place.1 place.2) hunks places ∧
    places.Pairwise (fun p q => p.2 ≤ q.1) ∧ (∀ p ∈ places, cursor ≤ p.1) ∧
    ∀ i ∈ cs, ∃ p ∈ places, p.1 ≤ i ∧ i < p.2
  applied : applyHunks (oldLines ops) (oldLines (ops.take cursor)).length
    (newLines (ops.take cursor)).length hunks = some (newLines (ops.drop cursor))

theorem hunksFrom_spec {context cursor : ℕ} {cs : List ℕ} (h : AtGroup ops context cursor cs) :
  HunksFrom ops cursor cs (hunksFrom ops context ((oldLines (ops.take cursor)).length + 1,
    (newLines (ops.take cursor)).length + 1) cursor cs)
  := by
  induction hlen : cs.length using Nat.strong_induction_on generalizing cursor cs with
  | _ n ih =>
  cases cs with
  | nil =>
    rw [hunksFrom]
    constructor
    · use []
      simp
    have hctx : ∀ op ∈ ops.drop cursor, op.type = .context := by
      intro op hop
      by_contra htype
      obtain ⟨k, hk, hget⟩ := mem_iff_getElem.mp hop
      rw [getElem_drop] at hget
      rw [length_drop] at hk
      have hop' : ops[cursor + k]? = some op := by
        rw [List.getElem?_eq_some_iff]
        use by omega
      cases (h.mem_iff (cursor + k)).mpr ⟨by omega, op, hop', htype⟩
    have hold : oldLines ops = oldLines (ops.take cursor) ++ oldLines (ops.drop cursor) := by
      rw [← oldLines_append, take_append_drop]
    rw [applyHunks, hold, drop_left, oldLines_eq_newLines hctx]
  | cons groupStart rest =>
  obtain ⟨hcur, hstart, hctx, hgroup, hnext⟩ := h.step
  have hlt := length_extend context groupStart rest
  have hrest := ih _ (by rw [← hlen, length_cons]; omega) hnext rfl
  obtain ⟨group, hgroupEq⟩ : ∃ group, group = extend context groupStart rest := ⟨_, rfl⟩
  obtain ⟨start, hstartEq⟩ : ∃ start, start = groupStart - context := ⟨_, rfl⟩
  obtain ⟨finish, hfinishEq⟩ : ∃ finish, finish = min ops.length (group.1 + 1 + context) := ⟨_, rfl⟩
  rw [← hgroupEq] at hstart hgroup hrest
  rw [← hfinishEq] at hstart hgroup hrest
  rw [← hstartEq] at hcur hstart hctx hgroup
  have hfrom : tally (span ops cursor start) ((oldLines (ops.take cursor)).length + 1,
      (newLines (ops.take cursor)).length + 1) =
      ((oldLines (ops.take start)).length + 1, (newLines (ops.take start)).length + 1) := by
    obtain ⟨hold, hnew⟩ := oldLines_take_append ops hcur
    rw [tally_eq, hold, hnew, length_append, length_append]
    apply Prod.ext
    all_goals
      dsimp only
      omega
  have hcount : tally (span ops start finish) (0, 0) = ((oldLines (span ops start finish)).length,
        (newLines (span ops start finish)).length) := by
    rw [tally_eq, Nat.zero_add, Nat.zero_add]
  have hline : ((oldLines (ops.take start)).length + 1 +
      (oldLines (span ops start finish)).length,
      (newLines (ops.take start)).length + 1 +
      (newLines (span ops start finish)).length) =
      ((oldLines (ops.take finish)).length + 1, (newLines (ops.take finish)).length + 1) := by
    obtain ⟨hold, hnew⟩ := oldLines_take_append ops hstart.le
    rw [hold, hnew, length_append, length_append]
    apply Prod.ext
    all_goals
      dsimp only
      omega
  rw [hunksFrom]
  rw [← hgroupEq, ← hstartEq, ← hfinishEq, hfrom, hcount, hline]
  obtain ⟨places, hplaces, hpair, hlow, hcover⟩ := hrest.placed
  constructor
  · use (start, finish) :: places
    constructor
    · apply Forall₂.cons
      · use hstart, by omega
      · apply hplaces
    constructor
    · apply List.Pairwise.cons
      · apply hlow
      · apply hpair
    constructor
    · intro p hp
      rcases mem_cons.mp hp with rfl | hp
      · exact hcur
      · have hfinish := hlow p hp
        omega
    intro i hi
    by_cases hlater : i ∈ group.2
    · obtain ⟨p, hp, hin⟩ := hcover i hlater
      use p, mem_cons_of_mem _ hp
    · use (start, finish), mem_cons_self
      exact hgroup i hi hlater
  · apply applyHunks_cons hcur hstart.le hctx rfl rfl hrest.applied

/-- The hunks of a list of lines are in order and apart, have every line added or removed once, and
make the new lines of the old ones. -/
theorem unified_unifiedDiffHunks (ops : List DiffLineOp) (context : ℕ) :
  Unified ops (unifiedDiffHunks ops context)
  := by
  have hspec := hunksFrom_spec (atGroup_changes ops context)
  obtain ⟨places, hplaces, hpair, -, hcover⟩ := hspec.placed
  constructor
  · use places, hplaces, hpair
    intro i op hop htype
    obtain ⟨p, hp, hin⟩ := hcover i (((atGroup_changes ops context).mem_iff i).mpr
      ⟨zero_le i, op, hop, htype⟩)
    use p, ⟨hp, hin⟩
    rintro q ⟨hq, hin'⟩
    by_contra hne
    have happart : places.Pairwise fun p q => p.2 ≤ q.1 ∨ q.2 ≤ p.1 := hpair.imp fun h => Or.inl h
    have hsymm : Std.Symm fun p q : ℕ × ℕ => p.2 ≤ q.1 ∨ q.2 ≤ p.1 := ⟨fun _ _ h => h.symm⟩
    rcases happart.forall hq hp hne with h | h
    · omega
    · omega
  · apply hspec.applied

end Shared.Diff
