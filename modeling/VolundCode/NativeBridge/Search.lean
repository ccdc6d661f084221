import VolundCode.Lib.Ecma
import VolundCode.Lib.Occurrences
import VolundCode.Lib.Splitting
import VolundCode.Lib.Utf8

/-!
# The two searches

The search for a literal pattern in files, by the worker, which counts positions in bytes and skips
files that are not decodable, and by the fallback, which counts the positions in a line in UTF-16
code units and decodes what it can. Both split a file at line feeds, count the line ends in bytes and
match on the line without a carriage return at its end.

The two agree if every character up to the end of every match in its line is an ASCII character,
nothing is found in a file that is not decodable, and the limit is not zero or nothing is found; and
where nothing is cut off they agree only then (`agrees_iff`).
-/

namespace NativeBridge.Search

open List Utf8 Occurrences

/-- A file that is offered to a search. -/
structure CandidateFile where
  path : String
  bytes : List UInt8

structure Span where
  start : ℕ
  stop : ℕ
  deriving DecidableEq

structure SearchMatch where
  path : String
  lineNumber : ℕ
  line : List Char
  span : Span
  deriving DecidableEq

/-! ### Lines -/

/-- `Buffer.byteLength(text)`, `text.len()`. -/
def byteLength (text : List Char) : ℕ :=
  (Utf8.encode text).length

/-- `text.length` in JavaScript. -/
def unitLength (text : List Char) : ℕ :=
  (Ecma.units (String.ofList text)).length

/-- The line that is matched: without a carriage return at its end. -/
def stripped (rawLine : List Char) : List Char :=
  if rawLine.getLast? = some '\r' then rawLine.dropLast else rawLine

/-- Where the pattern is found: the offset and the index of the line, the line, and the position
in it. -/
structure Found where
  offset : ℕ
  index : ℕ
  line : List Char
  position : ℕ

/-- Where the pattern is found in lines of which the first has the offset and the index. -/
def foundInLines (pattern : List Char) (offset index : ℕ) : List (List Char) → List Found
  | [] => []
  | rawLine :: rawLines =>
    (positions pattern (stripped rawLine)).map
        (⟨offset, index, stripped rawLine, ·⟩) ++
      foundInLines pattern (offset + byteLength rawLine + 1) (index + 1) rawLines

/-- Where the pattern is found in a text. -/
def foundInText (pattern text : List Char) : List Found :=
  foundInLines pattern 0 0 (text.splitOn '\n')

/-- What is reported, with positions in a line counted in some unit. -/
def Found.report (size : List Char → ℕ) (path : String) (pattern : List Char) (found : Found) :
    SearchMatch where
  path := path
  lineNumber := found.index + 1
  line := found.line
  span :=
    { start := found.offset + size (found.line.take found.position)
      stop := found.offset + size (found.line.take found.position) + size pattern }

/-! ### The searches -/

/-- A NUL in the first bytes: the file is not searched. -/
def isBinary (bytes : List UInt8) : Bool :=
  (bytes.take 8192).contains 0

def hardLimit : ℕ := 10000

/-- `Math.min(options.maxMatches ?? 10_000, 10_000)`, and in the worker the same. -/
def limitOf (maxMatches : Option ℕ) : ℕ :=
  min (maxMatches.getD hardLimit) hardLimit

/-- What the fallback finds in a file. -/
def fallbackMatches (pattern : List Char) (file : CandidateFile) : List SearchMatch :=
  if isBinary file.bytes then []
  else (foundInText pattern (decodeLossy file.bytes)).map
    (Found.report unitLength file.path pattern)

/-- A match is pushed, and `fallbackSearch` returns (`error`) when the limit is reached. -/
def pushFallback (limit : ℕ) (reported : List SearchMatch) (found : SearchMatch) :
    Except (List SearchMatch) (List SearchMatch) :=
  let reported := reported ++ [found]
  if limit ≤ reported.length then .error reported else .ok reported

def fallbackSearch (pattern : List Char) (maxMatches : Option ℕ) (files : List CandidateFile) :
    List SearchMatch :=
  match files.foldlM (fun reported file =>
      (fallbackMatches pattern file).foldlM (pushFallback (limitOf maxMatches)) reported) [] with
  | .error reported => reported
  | .ok reported => reported

/-- What the worker finds in a file. -/
def nativeMatches (pattern : List Char) (file : CandidateFile) : List SearchMatch :=
  if isBinary file.bytes then []
  else match decodeFatal file.bytes with
    | none => []
    | some text =>
      (foundInText pattern text).map (Found.report byteLength file.path pattern)

/-- `break 'files` (`error`) when there are as many matches as the limit, else the match is
pushed. -/
def pushNative (limit : ℕ) (output : List SearchMatch) (found : SearchMatch) :
    Except (List SearchMatch) (List SearchMatch) :=
  if limit ≤ output.length then .error output else .ok (output ++ [found])

/-- The matches of the worker, and whether they are truncated. -/
def nativeSearch (pattern : List Char) (maxMatches : Option ℕ) (files : List CandidateFile) :
    List SearchMatch × Bool :=
  match files.foldlM (fun output file =>
      (nativeMatches pattern file).foldlM (pushNative (limitOf maxMatches)) output) [] with
  | .error output => (output, true)
  | .ok output => (output, false)

/-! ### Agreement -/

/-- Nothing is cut off: neither search finds more than the limit. -/
structure Untruncated (pattern : List Char) (maxMatches : Option ℕ)
    (files files' : List CandidateFile) : Prop where
  fallback : (files.flatMap (fallbackMatches pattern)).length ≤ limitOf maxMatches
  native : (nativeSearch pattern maxMatches files').2 = false

/-- A span is within the file and its bytes are those of the text. -/
def Selects (bytes : List UInt8) (span : Span) (text : List Char) : Prop :=
  span.stop ≤ bytes.length ∧
    (bytes.drop span.start).take (span.stop - span.start) = Utf8.encode text

/-- The searches of files that the fallback reads in one order and the worker in another one. -/
structure Agree (pattern : List Char) (maxMatches : Option ℕ)
    (files files' : List CandidateFile) : Prop where
  same : Untruncated pattern maxMatches files files' → ∀ file ∈ files,
    ((fallbackSearch pattern maxMatches files).filter (·.path = file.path)).Perm
      ((nativeSearch pattern maxMatches files').1.filter (·.path = file.path))
  count : (fallbackSearch pattern maxMatches files).length =
    (nativeSearch pattern maxMatches files').1.length
  selects : ∀ found ∈ fallbackSearch pattern maxMatches files ++
      (nativeSearch pattern maxMatches files').1,
    ∃ file ∈ files, file.path = found.path ∧ Selects file.bytes found.span pattern

/-- All characters are ASCII characters. -/
def IsAscii (text : List Char) : Prop :=
  ∀ c ∈ text, c.toNat < 0x80

/-- What a file may contain: if it is not decodable, nothing that is found, and else only ASCII
characters in a line up to the end of what is found in it. -/
def PlainFile (pattern : List Char) (file : CandidateFile) : Prop :=
  isBinary file.bytes = false →
    match decodeFatal file.bytes with
    | none => ∀ rawLine ∈ (decodeLossy file.bytes).splitOn '\n',
        positions pattern (stripped rawLine) = []
    | some text => ∀ rawLine ∈ text.splitOn '\n', ∀ p ∈ positions pattern (stripped rawLine),
          IsAscii ((stripped rawLine).take (p + pattern.length))

/-- The pattern is in a line of a file that is searched. -/
def IsFound (pattern : List Char) (file : CandidateFile) : Prop :=
  isBinary file.bytes = false ∧ ∃ rawLine ∈ (decodeLossy file.bytes).splitOn '\n',
    positions pattern (stripped rawLine) ≠ []

/-- The files are plain, and the limit is not zero or nothing is found. -/
structure Plain (pattern : List Char) (maxMatches : Option ℕ) (files : List CandidateFile) :
    Prop where
  plain : ∀ file ∈ files, PlainFile pattern file
  limit : maxMatches ≠ some 0 ∨ ∀ file ∈ files, ¬ IsFound pattern file

/-! ### The loops -/

theorem foldlM_flatMap {ε α β σ : Type} (push : σ → β → Except ε σ) (f : α → List β)
    (l : List α) (init : σ) :
  l.foldlM (fun acc x => (f x).foldlM push acc) init = (l.flatMap f).foldlM push init
  := by
  induction l generalizing init with
  | nil => rfl
  | cons x l ih =>
  rw [foldlM_cons, flatMap_cons, foldlM_append]
  congr
  funext acc
  apply ih

/-- The loop of the fallback pushes the match with which the limit is reached, and the first one in
any case. -/
theorem foldlM_pushFallback {limit : ℕ} (all : List SearchMatch) {reported : List SearchMatch}
    (h : reported.length < max 1 limit) :
  (match all.foldlM (pushFallback limit) reported with
    | .error reported => reported
    | .ok reported => reported) = (reported ++ all).take (max 1 limit)
  := by
  induction all generalizing reported with
  | nil =>
    rw [append_nil, take_of_length_le h.le]
    rfl
  | cons found all ih =>
  rw [foldlM_cons, pushFallback]
  have hlen : (reported ++ [found]).length = reported.length + 1 := by simp
  by_cases hlimit : limit ≤ (reported ++ [found]).length
  · have hfull : max 1 limit = (reported ++ [found]).length := by omega
    rw [if_pos hlimit, hfull, append_cons reported found all, take_left]
    rfl
  · rw [if_neg hlimit, append_cons reported found all]
    apply ih
    omega

/-- The loop of the worker ends before a match that is too many. -/
theorem foldlM_pushNative {limit : ℕ} (all : List SearchMatch) {output : List SearchMatch}
    (h : output.length ≤ limit) :
  (match all.foldlM (pushNative limit) output with
    | .error output => (output, true)
    | .ok output => (output, false)) =
    ((output ++ all).take limit, decide (limit < (output ++ all).length))
  := by
  induction all generalizing output with
  | nil =>
    rw [append_nil, take_of_length_le h, decide_eq_false (by omega)]
    rfl
  | cons found all ih =>
  rw [foldlM_cons, pushNative]
  by_cases hlimit : limit ≤ output.length
  · obtain rfl : limit = output.length := by omega
    have hmore : output.length < (output ++ found :: all).length := by simp
    rw [if_pos hlimit, take_left, decide_eq_true hmore]
    rfl
  rw [if_neg hlimit, append_cons output found all]
  apply ih
  rw [length_append, length_singleton]
  omega

theorem fallbackSearch_eq (pattern : List Char) (maxMatches : Option ℕ)
    (files : List CandidateFile) :
  fallbackSearch pattern maxMatches files =
    (files.flatMap (fallbackMatches pattern)).take (max 1 (limitOf maxMatches))
  := by
  unfold fallbackSearch
  rw [foldlM_flatMap]
  apply foldlM_pushFallback
  rw [length_nil]
  omega

theorem nativeSearch_eq (pattern : List Char) (maxMatches : Option ℕ) (files : List CandidateFile) :
  nativeSearch pattern maxMatches files =
    ((files.flatMap (nativeMatches pattern)).take (limitOf maxMatches),
      decide (limitOf maxMatches < (files.flatMap (nativeMatches pattern)).length))
  := by
  unfold nativeSearch
  rw [foldlM_flatMap]
  apply foldlM_pushNative
  apply Nat.zero_le

/-! ### Sizes -/

theorem byteLength_append (text text' : List Char) :
  byteLength (text ++ text') = byteLength text + byteLength text'
  := by
  rw [byteLength, Utf8.encode, flatMap_append, length_append]
  rfl

theorem unitLength_append (text text' : List Char) :
  unitLength (text ++ text') = unitLength text + unitLength text'
  := by
  simp [unitLength, Ecma.units]

/-- A character has as many units as bytes if it is an ASCII character, and else fewer. -/
theorem unitLength_singleton (c : Char) :
  unitLength [c] ≤ byteLength [c] ∧ (unitLength [c] = byteLength [c] ↔ c.toNat < 0x80)
  := by
  have hsequence := sequence_encodeChar c
  have hbytes : byteLength [c] = (String.utf8EncodeChar c).length := by
    simp [byteLength, Utf8.encode]
  have hunits : unitLength [c] = if c.toNat < 0x10000 then 1 else 2 := by
    simp only [unitLength, Ecma.units, String.toList_ofList, flatMap_singleton]
    split_ifs <;> rfl
  rw [hbytes, hunits]
  generalize String.utf8EncodeChar c = bytes at hsequence ⊢
  cases hsequence with
  | one ha hc =>
    rw [if_pos (by omega)]
    refine ⟨le_refl _, fun _ => ?_, fun _ => rfl⟩
    omega
  | two ha hb hc =>
    have hlow := hb.1
    rw [if_pos (by have := hb.2; omega)]
    simp only [length_cons, length_nil]
    omega
  | three ha hb hd hshort hsurr hc =>
    have hb₁ := hb.1
    have hb₂ := hb.2
    have hd₂ := hd.2
    rw [if_pos (by omega)]
    simp only [length_cons, length_nil]
    omega
  | four ha hb hd he hshort hc =>
    have hb₁ := hb.1
    simp only [length_cons, length_nil]
    split_ifs <;> omega

/-- A text has as many units as bytes if all characters are ASCII characters, and else fewer. -/
theorem unitLength_le (text : List Char) :
  unitLength text ≤ byteLength text ∧ (unitLength text = byteLength text ↔ IsAscii text)
  := by
  induction text with
  | nil =>
    refine ⟨le_refl _, fun _ => ?_, fun _ => rfl⟩
    intro c hc
    cases hc
  | cons c text ih =>
  have hone := unitLength_singleton c
  rw [← singleton_append, byteLength_append, unitLength_append, IsAscii,
    singleton_append, forall_mem_cons, ← hone.2, ← IsAscii, ← ih.2]
  omega

/-! ### Where the pattern is found -/

/-- What is found is in one of the lines, after those before it. -/
theorem exists_of_mem_foundInLines {pattern : List Char} {offset index : ℕ}
    {rawLines : List (List Char)} {found : Found}
    (h : found ∈ foundInLines pattern offset index rawLines) :
  ∃ before rawLine after, rawLines = before ++ rawLine :: after ∧
    found.offset = offset + byteLength (before.flatMap (· ++ ['\n'])) ∧
    found.line = stripped rawLine ∧
    found.position ∈ positions pattern (stripped rawLine)
  := by
  induction rawLines generalizing offset index with
  | nil => cases h
  | cons rawLine rawLines ih =>
  rw [foundInLines] at h
  rcases mem_append.mp h with h | h
  · obtain ⟨p, hp, rfl⟩ := mem_map.mp h
    use [], rawLine, rawLines
    refine ⟨rfl, rfl, rfl, hp⟩
  obtain ⟨before, rawLine', after, rfl, hoffset, hline, hpos⟩ := ih h
  use rawLine :: before, rawLine', after
  refine ⟨rfl, ?_, hline, hpos⟩
  have hfeed : byteLength ['\n'] = 1 := by decide
  rw [hoffset, flatMap_cons, byteLength_append, byteLength_append, hfeed]
  omega

/-- The pattern is found in a line wherever it is in it. -/
theorem exists_mem_foundInLines {pattern rawLine : List Char} {p : ℕ}
    {rawLines : List (List Char)} (offset index : ℕ) (hline : rawLine ∈ rawLines)
    (hp : p ∈ positions pattern (stripped rawLine)) :
  ∃ found ∈ foundInLines pattern offset index rawLines,
    found.line = stripped rawLine ∧ found.position = p
  := by
  induction rawLines generalizing offset index with
  | nil => cases hline
  | cons rawLine' rawLines ih =>
  rw [foundInLines]
  rcases mem_cons.mp hline with rfl | hline
  · refine ⟨_, mem_append_left _ (mem_map_of_mem hp), rfl, rfl⟩
  · obtain ⟨found, hfound, heq⟩ := ih _ _ hline
    use found
    refine ⟨mem_append_right _ hfound, heq⟩

/-- Nothing is found in a text if nothing is in its lines. -/
theorem foundInText_eq_nil_iff {pattern text : List Char} :
  foundInText pattern text = [] ↔
    ∀ rawLine ∈ text.splitOn '\n', positions pattern (stripped rawLine) = []
  := by
  constructor
  · intro h rawLine hline
    apply eq_nil_iff_forall_not_mem.mpr
    intro p hp
    obtain ⟨found, hfound, -⟩ := exists_mem_foundInLines 0 0 hline hp
    rw [foundInText] at h
    rw [h] at hfound
    cases hfound
  intro h
  apply eq_nil_iff_forall_not_mem.mpr
  intro found hfound
  obtain ⟨before, rawLine, after, hlines, -, -, hpos⟩ := exists_of_mem_foundInLines hfound
  have hline : rawLine ∈ text.splitOn '\n' := by
    rw [hlines]
    apply mem_append_right _ mem_cons_self
  rw [h rawLine hline] at hpos
  cases hpos

/-- A line is in the text after the lines before it, each with its line feed. -/
theorem exists_intercalate_append (before after : List (List Char)) (rawLine : List Char) :
  ∃ rest, ['\n'].intercalate (before ++ rawLine :: after) =
    before.flatMap (· ++ ['\n']) ++ (rawLine ++ rest)
  := by
  induction before with
  | nil =>
    cases after with
    | nil =>
      use []
      simp [List.intercalate]
    | cons next after =>
      use ['\n'] ++ ['\n'].intercalate (next :: after)
      rw [nil_append, Splitting.intercalate_cons_cons]
      rfl
  | cons line before ih =>
  obtain ⟨rest, hrest⟩ := ih
  use rest
  rw [flatMap_cons, append_assoc, append_assoc, ← hrest, cons_append]
  cases before with
  | nil => rw [nil_append, Splitting.intercalate_cons_cons]
  | cons line' before => rw [cons_append, Splitting.intercalate_cons_cons]

theorem stripped_prefix (rawLine : List Char) :
  stripped rawLine <+: rawLine
  := by
  unfold stripped
  split_ifs
  · apply dropLast_prefix
  · apply prefix_refl

/-- What is found is in the text: before it are the lines before and the line up to it. -/
theorem exists_of_mem_foundInText {pattern text : List Char} {found : Found}
    (h : found ∈ foundInText pattern text) :
  ∃ before rest, text = before ++ found.line.take found.position ++ pattern ++ rest ∧
    found.offset = byteLength before
  := by
  obtain ⟨before, rawLine, after, hlines, hoffset, hline, hpos⟩ := exists_of_mem_foundInLines h
  obtain ⟨rest, hrest⟩ := exists_intercalate_append before after rawLine
  obtain ⟨carriage, hcarriage⟩ := stripped_prefix rawLine
  obtain ⟨tail, htail⟩ := prefix_of_mem_positions hpos
  use before.flatMap (· ++ ['\n']), tail ++ carriage ++ rest
  constructor
  · have htext : ['\n'].intercalate (text.splitOn '\n') = text := intercalate_splitOn _
    have hsplit : (stripped rawLine).take found.position ++ (pattern ++ tail) =
        stripped rawLine := by
      rw [htail, take_append_drop]
    rw [← htext, hlines, hrest, hline]
    nth_rewrite 1 [← hcarriage]
    rw [← hsplit]
    simp only [append_assoc]
    rw [hsplit]
  · rw [hoffset, Nat.zero_add]

/-! ### The matches of a file -/

theorem decodeLossy_of_decodeFatal {bytes : List UInt8} {text : List Char}
    (h : decodeFatal bytes = some text) :
  decodeLossy bytes = text
  := by
  rw [← decodeFatal_eq_some_iff.mp h]
  apply decodeLossy_encode

variable {file : CandidateFile}

theorem path_of_mem_fallbackMatches {pattern : List Char}
    {found : SearchMatch} (h : found ∈ fallbackMatches pattern file) :
  found.path = file.path
  := by
  unfold fallbackMatches at h
  split_ifs at h
  · cases h
  · obtain ⟨_, -, rfl⟩ := mem_map.mp h
    rfl

/-- What the worker reports is in its file, and the span selects it. -/
theorem selects_of_mem_nativeMatches {pattern : List Char}
    {found : SearchMatch} (h : found ∈ nativeMatches pattern file) :
  found.path = file.path ∧ Selects file.bytes found.span pattern
  := by
  unfold nativeMatches at h
  split_ifs at h
  · cases h
  cases htext : decodeFatal file.bytes with
  | none =>
    rw [htext] at h
    cases h
  | some text =>
  rw [htext] at h
  obtain ⟨position, hpos, rfl⟩ := mem_map.mp h
  obtain ⟨before, rest, hsplit, hoffset⟩ := exists_of_mem_foundInText hpos
  refine ⟨rfl, ?_⟩
  have hbytes : file.bytes = Utf8.encode (before ++ position.line.take position.position) ++
        (Utf8.encode pattern ++ Utf8.encode rest) := by
    rw [← decodeFatal_eq_some_iff.mp htext, hsplit]
    simp [Utf8.encode]
  have hstart : position.offset + byteLength (position.line.take position.position) =
      (Utf8.encode (before ++ position.line.take position.position)).length := by
    rw [hoffset, ← byteLength_append]
    rfl
  unfold Selects Found.report
  dsimp only
  rw [hstart, hbytes, drop_left, Nat.add_sub_cancel_left]
  constructor
  · rw [length_append, length_append]
    unfold byteLength
    omega
  · apply take_left

/-- Nothing is found in a file when the fallback reports nothing. -/
theorem fallbackMatches_eq_nil_iff {pattern : List Char} :
  fallbackMatches pattern file = [] ↔ ¬ IsFound pattern file
  := by
  unfold fallbackMatches IsFound
  cases isBinary file.bytes with
  | true => simp
  | false =>
    rw [if_neg Bool.false_ne_true, map_eq_nil_iff, foundInText_eq_nil_iff]
    simp

/-- In a plain file both searches find the same. -/
theorem fallbackMatches_eq {pattern : List Char} (h : PlainFile pattern file) :
  fallbackMatches pattern file = nativeMatches pattern file
  := by
  unfold PlainFile at h
  unfold fallbackMatches nativeMatches
  cases hbinary : isBinary file.bytes with
  | true => rfl
  | false =>
  rw [if_neg Bool.false_ne_true, if_neg Bool.false_ne_true]
  have hplain := h hbinary
  cases htext : decodeFatal file.bytes with
  | none =>
    rw [htext] at hplain
    rw [foundInText_eq_nil_iff.mpr hplain]
    rfl
  | some text =>
  rw [htext] at hplain
  rw [decodeLossy_of_decodeFatal htext]
  apply map_congr_left
  intro found hfound
  obtain ⟨before, rawLine, after, hlines, -, hline, hpos⟩ := exists_of_mem_foundInLines hfound
  have hmem : rawLine ∈ text.splitOn '\n' := by
    rw [hlines]
    apply mem_append_right _ mem_cons_self
  have hascii := hplain rawLine hmem found.position hpos
  rw [← hline] at hascii hpos
  obtain ⟨tail, htail⟩ := prefix_of_mem_positions hpos
  rw [take_add, ← htail, take_left] at hascii
  have htake := (unitLength_le (found.line.take found.position)).2.mpr fun c hc =>
    hascii c (mem_append_left _ hc)
  have hpattern := (unitLength_le pattern).2.mpr fun c hc =>
    hascii c (mem_append_right _ hc)
  unfold Found.report
  rw [htake, hpattern]

/-- A file in which both searches find the same is plain. -/
theorem plainFile_of_perm {pattern : List Char}
    (h : (fallbackMatches pattern file).Perm (nativeMatches pattern file)) :
  PlainFile pattern file
  := by
  intro hbinary
  unfold fallbackMatches nativeMatches at h
  rw [hbinary, if_neg Bool.false_ne_true, if_neg Bool.false_ne_true] at h
  cases htext : decodeFatal file.bytes with
  | none =>
    rw [htext] at h
    apply foundInText_eq_nil_iff.mp
    apply map_eq_nil_iff.mp h.eq_nil
  | some text =>
  rw [htext, decodeLossy_of_decodeFatal htext] at h
  intro rawLine hline p hp
  -- no end is later in units than in bytes, and the ends have the same sum
  have hle : ∀ found ∈ foundInText pattern text,
      (found.report unitLength file.path pattern).span.stop ≤
        (found.report byteLength file.path pattern).span.stop := by
    intro found _
    have htake := (unitLength_le (found.line.take found.position)).1
    have hpattern := (unitLength_le pattern).1
    unfold Found.report
    dsimp only
    omega
  have hsum := (h.map (·.span.stop)).sum_eq
  rw [map_map, map_map] at hsum
  obtain ⟨found, hfound, hfoundLine, rfl⟩ := exists_mem_foundInLines 0 0 hline hp
  have heq := Splitting.eq_of_sum_le hle hsum.ge found hfound
  rw [← hfoundLine] at hp ⊢
  obtain ⟨tail, htail⟩ := prefix_of_mem_positions hp
  rw [take_add, ← htail, take_left]
  apply (unitLength_le _).2.mp
  rw [unitLength_append, byteLength_append]
  unfold Found.report at heq
  dsimp only at heq
  omega

/-! ### The matches of all files -/

/-- Of what is found in files with different paths, what is in one of them. -/
theorem filter_flatMap {matchesOf : CandidateFile → List SearchMatch}
    {files : List CandidateFile} (hnodup : (files.map CandidateFile.path).Nodup)
    (hpath : ∀ file, ∀ found ∈ matchesOf file, found.path = file.path) (hfile : file ∈ files) :
  (files.flatMap matchesOf).filter (·.path = file.path) = matchesOf file
  := by
  have hnone {files : List CandidateFile} (h : file.path ∉ files.map CandidateFile.path) :
      (files.flatMap matchesOf).filter (·.path = file.path) = [] := by
    rw [filter_eq_nil_iff]
    intro found hfound
    obtain ⟨other, hother, hfound⟩ := mem_flatMap.mp hfound
    rw [decide_eq_true_eq, hpath other found hfound]
    intro heq
    apply h
    rw [← heq]
    apply mem_map_of_mem hother
  induction files with
  | nil => cases hfile
  | cons other files ih =>
  rw [map_cons, nodup_cons] at hnodup
  rw [flatMap_cons, filter_append]
  rcases mem_cons.mp hfile with rfl | hfile
  · rw [hnone hnodup.1, append_nil, filter_eq_self]
    intro found hfound
    rw [decide_eq_true_eq]
    apply hpath _ found hfound
  have hother : (matchesOf other).filter (·.path = file.path) = [] := by
    rw [filter_eq_nil_iff]
    intro found hfound
    rw [decide_eq_true_eq, hpath other found hfound]
    intro heq
    apply hnodup.1
    rw [heq]
    apply mem_map_of_mem hfile
  rw [hother, nil_append, ih hnodup.2 hfile]

variable {pattern : List Char} {maxMatches : Option ℕ} {files files' : List CandidateFile}

theorem Untruncated.fallbackSearch_eq (h : Untruncated pattern maxMatches files files') :
  fallbackSearch pattern maxMatches files = files.flatMap (fallbackMatches pattern)
  := by
  rw [Search.fallbackSearch_eq, take_of_length_le (le_max_of_le_right h.fallback)]

theorem Untruncated.nativeSearch_eq (h : Untruncated pattern maxMatches files files') :
  (nativeSearch pattern maxMatches files').1 = files'.flatMap (nativeMatches pattern)
  := by
  have hnative := h.native
  rw [Search.nativeSearch_eq, decide_eq_false_iff_not, not_lt] at hnative
  rw [Search.nativeSearch_eq, take_of_length_le hnative]

/-- On plain files the searches agree. -/
theorem Plain.agree (h : Plain pattern maxMatches files) (hsame : files'.Perm files) :
  Agree pattern maxMatches files files'
  := by
  have hall : files.flatMap (fallbackMatches pattern) = files.flatMap (nativeMatches pattern) := by
    apply flatMap_congr
    intro file hfile
    apply fallbackMatches_eq (h.plain file hfile)
  have hperm := hsame.flatMap_right (nativeMatches pattern)
  constructor
  · intro hfull file _
    rw [hfull.fallbackSearch_eq, hfull.nativeSearch_eq, hall]
    apply (hperm.filter _).symm
  · rw [fallbackSearch_eq, nativeSearch_eq, length_take, length_take, hperm.length_eq, hall]
    rcases h.limit with hlimit | hnone
    · have hpos : 1 ≤ limitOf maxMatches := by
        unfold limitOf hardLimit
        cases maxMatches with
        | none => decide
        | some max =>
        have hne : max ≠ 0 := by
          rintro rfl
          apply hlimit rfl
        rw [Option.getD_some]
        omega
      rw [max_eq_right hpos]
    have hnil : files.flatMap (nativeMatches pattern) = [] := by
      rw [← hall, flatMap_eq_nil_iff]
      intro file hfile
      apply fallbackMatches_eq_nil_iff.mpr (hnone file hfile)
    rw [hnil]
    simp
  intro found hfound
  have hmem : found ∈ files.flatMap (nativeMatches pattern) := by
    rcases mem_append.mp hfound with hfound | hfound
    · rw [fallbackSearch_eq, hall] at hfound
      apply mem_of_mem_take hfound
    · rw [nativeSearch_eq] at hfound
      apply hperm.mem_iff.mp (mem_of_mem_take hfound)
  obtain ⟨file, hfile, hfound⟩ := mem_flatMap.mp hmem
  obtain ⟨hpath, hselects⟩ := selects_of_mem_nativeMatches hfound
  use file
  refine ⟨hfile, hpath.symm, hselects⟩

/-- Where nothing is cut off, files on which the searches agree are plain. -/
theorem Agree.plain (h : Agree pattern maxMatches files files') (hsame : files'.Perm files)
    (hnodup : (files.map CandidateFile.path).Nodup)
    (hfull : Untruncated pattern maxMatches files files') :
  Plain pattern maxMatches files
  := by
  constructor
  · intro file hfile
    apply plainFile_of_perm
    have hfilt := h.same hfull file hfile
    rw [hfull.fallbackSearch_eq, hfull.nativeSearch_eq,
      filter_flatMap hnodup (fun _ _ => path_of_mem_fallbackMatches) hfile] at hfilt
    apply hfilt.trans
    have hperm := (hsame.flatMap_right (nativeMatches pattern)).filter (·.path = file.path)
    rw [filter_flatMap hnodup (fun _ _ h => (selects_of_mem_nativeMatches h).1) hfile] at hperm
    apply hperm
  by_cases hmax : maxMatches = some 0
  · right
    intro file hfile
    apply fallbackMatches_eq_nil_iff.mp
    have hlen := hfull.fallback
    subst hmax
    have hnil := eq_nil_of_length_eq_zero (Nat.le_zero.mp hlen)
    apply flatMap_eq_nil_iff.mp hnil file hfile
  · left
    apply hmax

/-- **The two searches agree on plain files and, where nothing is cut off, only on these.** -/
theorem agrees_iff (hsame : files'.Perm files) (hnodup : (files.map CandidateFile.path).Nodup) :
  (Plain pattern maxMatches files → Agree pattern maxMatches files files') ∧
    (Untruncated pattern maxMatches files files' →
      (Agree pattern maxMatches files files' ↔ Plain pattern maxMatches files))
  := by
  constructor
  · intro hplain
    apply hplain.agree hsame
  intro hfull
  constructor
  · intro hagree
    apply hagree.plain hsame hnodup hfull
  · intro hplain
    apply hplain.agree hsame

/-- The theorem for a file with a line of ASCII characters and another one after it. -/
theorem agrees_iff_ascii :
  (Plain ['a'] none [⟨"f", [98, 97, 13, 10, 97, 195, 169]⟩] →
      Agree ['a'] none [⟨"f", [98, 97, 13, 10, 97, 195, 169]⟩]
        [⟨"f", [98, 97, 13, 10, 97, 195, 169]⟩]) ∧
    (Untruncated ['a'] none [⟨"f", [98, 97, 13, 10, 97, 195, 169]⟩]
        [⟨"f", [98, 97, 13, 10, 97, 195, 169]⟩] →
      (Agree ['a'] none [⟨"f", [98, 97, 13, 10, 97, 195, 169]⟩]
        [⟨"f", [98, 97, 13, 10, 97, 195, 169]⟩] ↔
        Plain ['a'] none [⟨"f", [98, 97, 13, 10, 97, 195, 169]⟩]))
  := agrees_iff (Perm.refl _) (nodup_singleton _)

/-- The searches do not agree on the file `éa` for the pattern `a`: the fallback reports the second
byte of `é`. -/
theorem not_searches_agree :
  ¬ Agree ['a'] none [⟨"f", [195, 169, 97]⟩] [⟨"f", [195, 169, 97]⟩]
  := by
  intro h
  have hfallback : fallbackSearch ['a'] none [⟨"f", [195, 169, 97]⟩] =
      [⟨"f", 1, ['é', 'a'], ⟨1, 2⟩⟩] := by decide +kernel
  obtain ⟨file, hfile, -, -, hselects⟩ := h.selects ⟨"f", 1, ['é', 'a'], ⟨1, 2⟩⟩ (by
    rw [hfallback]
    apply mem_append_left _ mem_cons_self)
  obtain rfl := mem_singleton.mp hfile
  revert hselects
  decide +kernel

end NativeBridge.Search
