import VolundCode.Lib.Occurrences
import VolundCode.Lib.Utf8

/-!
# Strings of code units

The strings of ECMAScript are lists of 16-bit code units, which need not be those of characters.
`split`, `join` and `replace` are those of the standard with a string as the pattern: `split` with
the empty string gives the single units, and `replace` reads the sequences `$$`, `$&`, `` $` `` and
`$'` of the replacement.

The bytes of a text are those of its characters, with the replacement character for a surrogate
that is not in a pair. The bytes of pieces are those of the whole exactly where no pair is put
together from two pieces (`encode_flatten_iff`).
-/

namespace CodeUnits

open List UInt16

/-- A string of ECMAScript. -/
abbrev Text := List UInt16

/-- `text.split(separator)`. -/
def split (separator text : Text) : List Text :=
  if separator = [] then text.map fun unit => [unit] else Occurrences.split separator text

/-- `parts.join(separator)`. -/
def join (separator : Text) (parts : List Text) : Text :=
  separator.intercalate parts

/-- The replacement for what has been matched, which stands between two texts. -/
def getSubstitution (matched before after : Text) : Text → Text
  | 0x24 :: 0x24 :: rest => 0x24 :: getSubstitution matched before after rest
  | 0x24 :: 0x26 :: rest => matched ++ getSubstitution matched before after rest
  | 0x24 :: 0x60 :: rest => before ++ getSubstitution matched before after rest
  | 0x24 :: 0x27 :: rest => after ++ getSubstitution matched before after rest
  | unit :: rest => unit :: getSubstitution matched before after rest
  | [] => []

/-- `text.replace(pattern, replacement)`: the first place of the pattern. -/
def replace (pattern replacement text : Text) : Text :=
  match Occurrences.cut pattern text with
  | none => text
  | some (before, after) =>
    before ++ getSubstitution pattern before after replacement ++ after

/-- The parts of a text, joined again. -/
theorem join_split {separator : Text} (hne : separator ≠ []) (text : Text) :
  join separator (split separator text) = text
  := by
  rw [join, split, if_neg hne]
  apply Occurrences.intercalate_split hne

/-! ### Characters -/

def isHigh (unit : UInt16) : Bool :=
  0xd800 ≤ unit.toNat && unit.toNat ≤ 0xdbff

def isLow (unit : UInt16) : Bool :=
  0xdc00 ≤ unit.toNat && unit.toNat ≤ 0xdfff

/-- The character of a unit that is not in a pair. -/
def single (unit : UInt16) : Char :=
  if isHigh unit || isLow unit then '\ufffd' else Char.ofNat unit.toNat

/-- The character of a pair. -/
def pair (high low : UInt16) : Char :=
  Char.ofNat (0x10000 + (high.toNat - 0xd800) * 0x400 + (low.toNat - 0xdc00))

/-- The characters of a text. -/
def characters : Text → List Char
  | [] => []
  | [unit] => [single unit]
  | unit :: unit' :: rest =>
    if isHigh unit && isLow unit' then pair unit unit' :: characters rest
    else single unit :: characters (unit' :: rest)

/-- The units of a character. -/
def unitsOf (c : Char) : Text :=
  if c.toNat < 0x10000 then [ofNat c.toNat]
  else [ofNat (0xd800 + (c.toNat - 0x10000) / 0x400), ofNat (0xdc00 + (c.toNat - 0x10000) % 0x400)]

/-- The text of characters. -/
def units (cs : List Char) : Text :=
  cs.flatMap unitsOf

/-- `Buffer.from(text, 'utf8')`. -/
def encode (text : Text) : List UInt8 :=
  Utf8.encode (characters text)

/-- `bytes.toString('utf8')`. -/
def decode (bytes : List UInt8) : Text :=
  units (Utf8.decodeLossy bytes)

theorem characters_cons_of_not_high {unit : UInt16} (h : isHigh unit = false) (rest : Text) :
  characters (unit :: rest) = single unit :: characters rest
  := by
  cases rest with
  | nil => rfl
  | cons unit' rest => rw [characters, h, Bool.false_and, if_neg Bool.false_ne_true]

theorem characters_units_cons (c : Char) (rest : Text) :
  characters (unitsOf c ++ rest) = c :: characters rest
  := by
  have hvalid : c.toNat < 0xd800 ∨ 0xdfff < c.toNat ∧ c.toNat < 0x110000 := c.valid
  unfold unitsOf
  split_ifs with hsmall
  · have hunit : (ofNat c.toNat).toNat = c.toNat := by
      rw [toNat_ofNat']
      omega
    have hhigh : isHigh (ofNat c.toNat) = false := by
      simp only [isHigh, hunit, Bool.and_eq_false_iff, decide_eq_false_iff_not]
      omega
    have hlow : isLow (ofNat c.toNat) = false := by
      simp only [isLow, hunit, Bool.and_eq_false_iff, decide_eq_false_iff_not]
      omega
    rw [singleton_append, characters_cons_of_not_high hhigh, single, hhigh, hlow, hunit,
      Char.ofNat_toNat]
    rfl
  have hfirst : (ofNat (0xd800 + (c.toNat - 0x10000) / 0x400)).toNat =
      0xd800 + (c.toNat - 0x10000) / 0x400 := by
    rw [toNat_ofNat']
    omega
  have hsecond : (ofNat (0xdc00 + (c.toNat - 0x10000) % 0x400)).toNat =
      0xdc00 + (c.toNat - 0x10000) % 0x400 := by
    rw [toNat_ofNat']
    omega
  have hhigh : isHigh (ofNat (0xd800 + (c.toNat - 0x10000) / 0x400)) := by
    simp only [isHigh, hfirst, Bool.and_eq_true, decide_eq_true_eq]
    omega
  have hlow : isLow (ofNat (0xdc00 + (c.toNat - 0x10000) % 0x400)) := by
    simp only [isLow, hsecond, Bool.and_eq_true, decide_eq_true_eq]
    omega
  have hnum : 0x10000 + (0xd800 + (c.toNat - 0x10000) / 0x400 - 0xd800) * 0x400 +
      (0xdc00 + (c.toNat - 0x10000) % 0x400 - 0xdc00) = c.toNat := by
    omega
  rw [cons_append, singleton_append, characters, hhigh, hlow, Bool.and_self, if_pos rfl,
    pair, hfirst, hsecond, hnum, Char.ofNat_toNat]

/-- The characters of the units of characters. -/
theorem characters_units (cs : List Char) :
  characters (units cs) = cs
  := by
  induction cs with
  | nil => rfl
  | cons c cs ih =>
    rw [units, flatMap_cons, characters_units_cons]
    rw [units] at ih
    rw [ih]

/-! ### Pieces -/

/-- The first text ends, and the second begins, within a pair. -/
def Joins (text text' : Text) : Prop :=
  (∃ unit, text.getLast? = some unit ∧ isHigh unit) ∧ ∃ unit, text'.head? = some unit ∧ isLow unit

theorem not_isLow_of_isHigh {unit : UInt16} (h : isHigh unit) :
  isLow unit = false
  := by
  simp only [isHigh, isLow, Bool.and_eq_true, Bool.and_eq_false_iff, decide_eq_true_eq,
    decide_eq_false_iff_not] at *
  omega

variable {text text' : Text}

theorem Joins.cons {unit : UInt16} (h : Joins text text') :
  Joins (unit :: text) text'
  := by
  obtain ⟨⟨last, hlast, hhigh⟩, hlow⟩ := h
  refine ⟨⟨last, ?_, hhigh⟩, hlow⟩
  cases text with
  | nil => cases hlast
  | cons unit' text => rw [List.getLast?_cons_cons, hlast]

/-- The characters of two texts that do not join. -/
theorem characters_append (h : ¬ Joins text text') :
  characters (text ++ text') = characters text ++ characters text'
  := by
  induction text using characters.induct with
  | case1 => rfl
  | case2 unit =>
    cases text' with
    | nil => rfl
    | cons unit' text' =>
    have hpair : (isHigh unit && isLow unit') = false := by
      rw [Bool.and_eq_false_iff]
      by_contra hnot
      rw [not_or, Bool.not_eq_false, Bool.not_eq_false] at hnot
      exact h ⟨⟨unit, rfl, hnot.1⟩, unit', rfl, hnot.2⟩
    have heq : characters (unit :: unit' :: text') =
        single unit :: characters (unit' :: text') := by
      rw [characters, hpair, if_neg Bool.false_ne_true]
    rw [singleton_append, heq]
    rfl
  | case3 unit unit' rest hpair ih =>
    rw [cons_append, cons_append, characters, characters, if_pos hpair, if_pos hpair,
      ih fun hjoins => h hjoins.cons.cons]
    rfl
  | case4 unit unit' rest hpair ih =>
    rw [cons_append, cons_append, characters, characters, if_neg hpair, if_neg hpair,
      ← cons_append, ih fun hjoins => h hjoins.cons]
    rfl

theorem length_encodeChar_le (c : Char) :
  (String.utf8EncodeChar c).length ≤ 4
  := by
  have hsequence := Utf8.sequence_encodeChar c
  generalize String.utf8EncodeChar c = bytes at hsequence ⊢
  cases hsequence <;> simp

/-- Texts that join have fewer bytes together. -/
theorem length_encode_of_joins (h : Joins text text') :
  (encode (text ++ text')).length < (encode text).length + (encode text').length
  := by
  obtain ⟨⟨high, hhigh, hishigh⟩, low, hlow, hislow⟩ := h
  obtain ⟨start, rfl⟩ := List.getLast?_eq_some_iff.mp hhigh
  obtain ⟨rest, rfl⟩ := List.head?_eq_some_iff.mp hlow
  have hapart (tail : Text) : ¬ Joins start (high :: tail) := by
    rintro ⟨-, unit, hunit, hislow'⟩
    cases hunit
    rw [not_isLow_of_isHigh hishigh] at hislow'
    cases hislow'
  have hnothigh : isHigh low = false := by
    by_contra hcontra
    rw [Bool.not_eq_false] at hcontra
    rw [not_isLow_of_isHigh hcontra] at hislow
    cases hislow
  have hboth : characters (start ++ [high] ++ low :: rest) =
      characters start ++ pair high low :: characters rest := by
    rw [append_assoc, singleton_append, characters_append (hapart _), characters, hishigh,
      hislow, Bool.and_self, if_pos rfl]
  have hfirst : characters (start ++ [high]) = characters start ++ ['\ufffd'] := by
    rw [characters_append (hapart []), characters, single, hishigh, Bool.true_or, if_pos rfl]
  have hsecond : characters (low :: rest) = '\ufffd' :: characters rest := by
    rw [characters_cons_of_not_high hnothigh, single, hislow, Bool.or_true, if_pos rfl]
  have hpair := length_encodeChar_le (pair high low)
  have hthree : (String.utf8EncodeChar '\ufffd').length = 3 := by decide
  unfold encode Utf8.encode
  rw [hboth, hfirst, hsecond]
  simp only [flatMap_append, flatMap_cons, flatMap_nil, append_nil, length_append, hthree]
  omega

theorem encode_append (h : ¬ Joins text text') :
  encode (text ++ text') = encode text ++ encode text'
  := by
  unfold encode Utf8.encode
  rw [characters_append h, flatMap_append]

/-- Two texts have at most as many bytes together, and as many if they do not join. -/
theorem length_encode_append (text text' : Text) :
  (encode (text ++ text')).length ≤ (encode text).length + (encode text').length ∧
    ((encode (text ++ text')).length = (encode text).length + (encode text').length ↔
      ¬ Joins text text')
  := by
  by_cases h : Joins text text'
  · have hlt := length_encode_of_joins h
    refine ⟨hlt.le, ?_⟩
    constructor
    · intro heq
      omega
    · intro hnot
      cases hnot h
  · have heq := congrArg List.length (encode_append h)
    rw [length_append] at heq
    exact ⟨heq.le, fun _ => h, fun _ => heq⟩

/-- No two pieces, one after the other, join. -/
def Apart : List Text → Prop
  | [] => True
  | piece :: pieces => ¬ Joins piece pieces.flatten ∧ Apart pieces

/-- Pieces have at most as many bytes together, and as many only if they are apart. -/
theorem length_encode_flatten (pieces : List Text) :
  (encode pieces.flatten).length ≤ ((pieces.map encode).flatten).length ∧
    ((encode pieces.flatten).length = ((pieces.map encode).flatten).length → Apart pieces)
  := by
  induction pieces with
  | nil => exact ⟨le_refl _, fun _ => trivial⟩
  | cons piece pieces ih =>
  have happ := length_encode_append piece pieces.flatten
  rw [flatten_cons, map_cons, flatten_cons, length_append]
  constructor
  · omega
  intro heq
  constructor
  · apply happ.2.mp
    omega
  · apply ih.2
    omega

/-- The bytes of pieces are those of the whole where the pieces are apart. -/
theorem encode_flatten_iff {pieces : List Text} :
  encode pieces.flatten = (pieces.map encode).flatten ↔ Apart pieces
  := by
  constructor
  · intro h
    apply (length_encode_flatten pieces).2 (congrArg List.length h)
  intro h
  induction pieces with
  | nil => rfl
  | cons piece pieces ih =>
    rw [flatten_cons, encode_append h.1, ih h.2, map_cons, flatten_cons]

/-- Bytes of pieces are the bytes of a text. -/
theorem encode_decode_pieces (pieces : List Text) :
  encode (decode (pieces.map encode).flatten) = (pieces.map encode).flatten
  := by
  have hflat : (pieces.map encode).flatten = Utf8.encode (pieces.map characters).flatten := by
    induction pieces with
    | nil => rfl
    | cons piece pieces ih =>
      rw [map_cons, flatten_cons, ih, map_cons, flatten_cons, encode]
      simp [Utf8.encode]
  rw [hflat, decode, encode, characters_units, Utf8.decodeLossy_encode]

end CodeUnits
