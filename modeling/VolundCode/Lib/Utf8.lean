import Mathlib.Data.List.Basic

/-!
# UTF-8

The bytes of a text, the shapes the bytes of a character have (`sequence_encodeChar`), and the
decoder of the encoding standard, which replaces what it cannot decode or refuses it. The bytes of a
text are decoded to the text (`decodeLossy_encode`, `decodeFatal_encode`), and no other bytes are
decoded to it without an error (`decodeFatal_eq_some_iff`).
-/

namespace Utf8

open List

/-- The bytes of a text. -/
def encode (text : List Char) : List UInt8 :=
  text.flatMap String.utf8EncodeChar

/-- The bytes that follow the first one of a character. -/
def IsTail (b : UInt8) : Prop :=
  0x80 ≤ b.toNat ∧ b.toNat ≤ 0xbf

/-- The bytes of a character: the first one tells how many there are, and of the characters with
so many bytes none has a shorter sequence and none is a surrogate. -/
inductive Sequence : Char → List UInt8 → Prop where
  | one {c : Char} {a : UInt8} (ha : a.toNat < 0x80) (hc : c.toNat = a.toNat) : Sequence c [a]
  | two {c : Char} {a b : UInt8} (ha : 0xc2 ≤ a.toNat ∧ a.toNat ≤ 0xdf) (hb : IsTail b)
      (hc : c.toNat = (a.toNat - 0xc0) * 64 + (b.toNat - 0x80)) : Sequence c [a, b]
  | three {c : Char} {a b d : UInt8} (ha : 0xe0 ≤ a.toNat ∧ a.toNat ≤ 0xef) (hb : IsTail b)
      (hd : IsTail d) (hshort : a.toNat = 0xe0 → 0xa0 ≤ b.toNat)
      (hsurr : a.toNat = 0xed → b.toNat < 0xa0)
      (hc : c.toNat = (a.toNat - 0xe0) * 4096 + (b.toNat - 0x80) * 64 + (d.toNat - 0x80)) :
      Sequence c [a, b, d]
  | four {c : Char} {a b d e : UInt8} (ha : 0xf0 ≤ a.toNat ∧ a.toNat ≤ 0xf4) (hb : IsTail b)
      (hd : IsTail d) (he : IsTail e) (hshort : a.toNat = 0xf0 → 0x90 ≤ b.toNat)
      (hc : c.toNat = (a.toNat - 0xf0) * 262144 + (b.toNat - 0x80) * 4096 +
        (d.toNat - 0x80) * 64 + (e.toNat - 0x80)) :
      Sequence c [a, b, d, e]

theorem isTail_ofNat (n : ℕ) :
  IsTail (UInt8.ofNat (n % 64 + 128))
  := by
  rw [IsTail, UInt8.toNat_ofNat']
  omega

/-- The bytes of a character are a sequence. -/
theorem sequence_encodeChar (c : Char) :
  Sequence c (String.utf8EncodeChar c)
  := by
  have hvalid : c.toNat < 0xd800 ∨ 0xdfff < c.toNat ∧ c.toNat < 0x110000 := c.valid
  have hc : c.val.toNat = c.toNat := rfl
  unfold String.utf8EncodeChar
  simp only [hc]
  split_ifs with h₁ h₂ h₃
  · apply Sequence.one
    all_goals
      rw [UInt8.toNat_ofNat']
      omega
  · apply Sequence.two _ (isTail_ofNat c.toNat)
    all_goals
      simp only [UInt8.toNat_ofNat']
      omega
  · apply Sequence.three _ (isTail_ofNat (c.toNat / 64)) (isTail_ofNat c.toNat)
    all_goals
      simp only [UInt8.toNat_ofNat']
      omega
  apply Sequence.four _ (isTail_ofNat (c.toNat / 4096)) (isTail_ofNat (c.toNat / 64))
    (isTail_ofNat c.toNat)
  all_goals
    simp only [UInt8.toNat_ofNat']
    omega

/-- A byte of an ASCII character is the only one of its character. -/
theorem toNat_of_mem_encodeChar {c : Char} {b : UInt8} (hb : b ∈ String.utf8EncodeChar c)
    (hascii : b.toNat < 0x80) :
  c.toNat = b.toNat
  := by
  have htail {a : UInt8} (ha : IsTail a) : b ≠ a := by
    rintro rfl
    have hlow := ha.1
    omega
  have hbytes := sequence_encodeChar c
  generalize String.utf8EncodeChar c = bytes at hb hbytes
  cases hbytes with
  | one ha hc =>
    obtain rfl := mem_singleton.mp hb
    exact hc
  | two ha hb' hc =>
    simp only [mem_cons, not_mem_nil, or_false, htail hb'] at hb
    subst hb
    omega
  | three ha hb' hd hshort hsurr hc =>
    simp only [mem_cons, not_mem_nil, or_false, htail hb', htail hd] at hb
    subst hb
    omega
  | four ha hb' hd he hshort hc =>
    simp only [mem_cons, not_mem_nil, or_false, htail hb', htail hd, htail he] at hb
    subst hb
    omega

variable {text : List Char}

/-- A text without a line feed has no byte of one. -/
theorem notMem_encode (h : '\n' ∉ text) :
  10 ∉ encode text
  := by
  intro hmem
  obtain ⟨c, hc, hb⟩ := mem_flatMap.mp hmem
  have hten : c.toNat = 10 := toNat_of_mem_encodeChar hb (by decide)
  apply h
  have hchar : c = '\n' := by
    rw [← Char.ofNat_toNat c, hten]
  rw [← hchar]
  apply hc

/-! ### The decoder -/

/-- A character whose first bytes have been read: how many bytes follow, the number that has been
read of it, and the bounds of the next byte. -/
structure Partial where
  needed : ℕ
  value : ℕ
  low : ℕ
  high : ℕ

/-- What the decoder does at a byte: it has read a character, it needs more bytes, or the byte
cannot stand where it stands. -/
inductive Progress where
  | done (c : Char)
  | more (p : Partial)
  | error

/-- The first byte of a character. -/
def first (a : ℕ) : Progress :=
  if a < 0x80 then .done (Char.ofNat a)
  else if 0xc2 ≤ a ∧ a ≤ 0xdf then .more ⟨1, a - 0xc0, 0x80, 0xbf⟩
  else if 0xe0 ≤ a ∧ a ≤ 0xef then
    .more ⟨2, a - 0xe0, if a = 0xe0 then 0xa0 else 0x80, if a = 0xed then 0x9f else 0xbf⟩
  else if 0xf0 ≤ a ∧ a ≤ 0xf4 then
    .more ⟨3, a - 0xf0, if a = 0xf0 then 0x90 else 0x80, if a = 0xf4 then 0x8f else 0xbf⟩
  else .error

/-- A byte that follows. -/
def Partial.next (p : Partial) (b : ℕ) : Progress :=
  if p.low ≤ b ∧ b ≤ p.high then
    if p.needed = 1 then .done (Char.ofNat (p.value * 64 + (b - 0x80)))
    else .more ⟨p.needed - 1, p.value * 64 + (b - 0x80), 0x80, 0xbf⟩
  else .error

/-- The characters that bytes are decoded to, with `none` for every error. A byte that cannot follow
is read once more as a first byte. -/
def items : Option Partial → List UInt8 → List (Option Char)
  | none, [] => []
  | some _, [] => [none]
  | none, b :: s =>
    match first b.toNat with
    | .done c => some c :: items none s
    | .more p => items (some p) s
    | .error => none :: items none s
  | some p, b :: s =>
    match p.next b.toNat with
    | .done c => some c :: items none s
    | .more q => items (some q) s
    | .error =>
      none ::
        match first b.toNat with
        | .done c => some c :: items none s
        | .more q => items (some q) s
        | .error => none :: items none s

/-- The text of bytes, with the replacement character for every error. -/
def decodeLossy (bs : List UInt8) : List Char :=
  (items none bs).map fun c => c.getD '\ufffd'

/-- The text of bytes if there is no error. -/
def decodeFatal (bs : List UInt8) : Option (List Char) :=
  (items none bs).mapM id

/-- A character needs one byte more and the byte is within the bounds. -/
theorem items_last {p : Partial} {b : UInt8} (hn : p.needed = 1) (hlow : p.low ≤ b.toNat)
    (hhigh : b.toNat ≤ p.high) (s : List UInt8) :
  items (some p) (b :: s) = some (Char.ofNat (p.value * 64 + (b.toNat - 0x80))) :: items none s
  := by
  rw [items, Partial.next, if_pos ⟨hlow, hhigh⟩, if_pos hn]

/-- A character needs more than the byte that is read. -/
theorem items_tail {p : Partial} {b : UInt8} (hn : p.needed ≠ 1) (hlow : p.low ≤ b.toNat)
    (hhigh : b.toNat ≤ p.high) (s : List UInt8) :
  items (some p) (b :: s) =
    items (some ⟨p.needed - 1, p.value * 64 + (b.toNat - 0x80), 0x80, 0xbf⟩) s
  := by
  rw [items, Partial.next, if_pos ⟨hlow, hhigh⟩, if_neg hn]

variable {bs : List UInt8}

/-- The bytes of a character are decoded to it. -/
theorem items_sequence {c : Char} (h : Sequence c bs) (s : List UInt8) :
  items none (bs ++ s) = some c :: items none s
  := by
  have hchar : ∀ n, c.toNat = n → Char.ofNat n = c := by
    rintro n rfl
    apply Char.ofNat_toNat
  have hc : c.toNat < 0x110000 := by
    have hvalid : c.toNat < 0xd800 ∨ 0xdfff < c.toNat ∧ c.toNat < 0x110000 := c.valid
    omega
  cases h with
  | one ha hn =>
    rw [singleton_append, items, first, if_pos ha]
    simp only [hchar _ hn]
  | two ha hb hn =>
    simp only [cons_append, nil_append]
    rw [items, first, if_neg (by omega), if_pos ha]
    simp only
    rw [items_last rfl hb.1 hb.2, hchar _ hn]
  | three ha hb hd hshort hsurr hn =>
    simp only [cons_append, nil_append]
    rw [items, first, if_neg (by omega), if_neg (by omega), if_pos ha]
    simp only
    have hb₁ := hb.1
    have hb₂ := hb.2
    rw [items_tail (by simp) (by dsimp only; split_ifs <;> omega)
      (by dsimp only; split_ifs <;> omega), items_last rfl hd.1 hd.2, hchar]
    dsimp only
    omega
  | four ha hb hd he hshort hn =>
  simp only [cons_append, nil_append]
  rw [items, first, if_neg (by omega), if_neg (by omega), if_neg (by omega), if_pos ha]
  simp only
  have hb₁ := hb.1
  have hb₂ := hb.2
  have hd₁ := hd.1
  have he₁ := he.1
  rw [items_tail (by simp) (by dsimp only; split_ifs <;> omega)
    (by dsimp only; split_ifs <;> omega), items_tail (by simp) hd.1 hd.2,
    items_last rfl he.1 he.2, hchar]
  dsimp only
  omega

/-- The bytes of a text are decoded to the text. -/
theorem items_encode (text : List Char) :
  items none (encode text) = text.map some
  := by
  induction text with
  | nil => rfl
  | cons c text ih =>
    rw [encode, flatMap_cons, items_sequence (sequence_encodeChar c)]
    rw [encode] at ih
    rw [ih, map_cons]

theorem decodeLossy_encode (text : List Char) :
  decodeLossy (encode text) = text
  := by
  rw [decodeLossy, items_encode, map_map]
  exact map_id text

theorem decodeFatal_encode (text : List Char) :
  decodeFatal (encode text) = some text
  := by
  rw [decodeFatal, items_encode]
  induction text with
  | nil => rfl
  | cons c text ih => rw [map_cons, mapM_cons, ih]; rfl

/-! ### Bytes that are decoded without an error -/

/-- The bytes of a character are those of its encoding. -/
theorem encodeChar_of_sequence {c : Char} (h : Sequence c bs) :
  String.utf8EncodeChar c = bs
  := by
  have hval : c.val.toNat = c.toNat := rfl
  unfold String.utf8EncodeChar
  simp only [hval]
  cases h with
  | one ha hc =>
    rw [if_pos (by omega)]
    simp only [List.cons.injEq, and_true, ← UInt8.toNat_inj, UInt8.toNat_ofNat']
    omega
  | two ha hb hc =>
    have hb₁ := hb.1
    have hb₂ := hb.2
    rw [if_neg (by omega), if_pos (by omega)]
    simp only [List.cons.injEq, and_true, ← UInt8.toNat_inj, UInt8.toNat_ofNat']
    omega
  | three ha hb hd hshort hsurr hc =>
    have hb₁ := hb.1
    have hb₂ := hb.2
    have hd₁ := hd.1
    have hd₂ := hd.2
    rw [if_neg (by omega), if_neg (by omega), if_pos (by omega)]
    simp only [List.cons.injEq, and_true, ← UInt8.toNat_inj, UInt8.toNat_ofNat']
    omega
  | four ha hb hd he hshort hc =>
  have hb₁ := hb.1
  have hb₂ := hb.2
  have hd₁ := hd.1
  have hd₂ := hd.2
  have he₁ := he.1
  have he₂ := he.2
  have hvalid : c.toNat < 0xd800 ∨ 0xdfff < c.toNat ∧ c.toNat < 0x110000 := c.valid
  rw [if_neg (by omega), if_neg (by omega), if_neg (by omega)]
  simp only [List.cons.injEq, and_true, ← UInt8.toNat_inj, UInt8.toNat_ofNat']
  omega

/-- The bytes with which a character has begun, and what has been read of it. -/
inductive Began : List UInt8 → Partial → Prop where
  | two {a : UInt8} (ha : 0xc2 ≤ a.toNat ∧ a.toNat ≤ 0xdf) :
      Began [a] ⟨1, a.toNat - 0xc0, 0x80, 0xbf⟩
  | three {a : UInt8} (ha : 0xe0 ≤ a.toNat ∧ a.toNat ≤ 0xef) :
      Began [a] ⟨2, a.toNat - 0xe0, if a.toNat = 0xe0 then 0xa0 else 0x80,
        if a.toNat = 0xed then 0x9f else 0xbf⟩
  | threeTwo {a b : UInt8} (ha : 0xe0 ≤ a.toNat ∧ a.toNat ≤ 0xef) (hb : IsTail b)
      (hshort : a.toNat = 0xe0 → 0xa0 ≤ b.toNat) (hsurr : a.toNat = 0xed → b.toNat < 0xa0) :
      Began [a, b] ⟨1, (a.toNat - 0xe0) * 64 + (b.toNat - 0x80), 0x80, 0xbf⟩
  | four {a : UInt8} (ha : 0xf0 ≤ a.toNat ∧ a.toNat ≤ 0xf4) :
      Began [a] ⟨3, a.toNat - 0xf0, if a.toNat = 0xf0 then 0x90 else 0x80,
        if a.toNat = 0xf4 then 0x8f else 0xbf⟩
  | fourTwo {a b : UInt8} (ha : 0xf0 ≤ a.toNat ∧ a.toNat ≤ 0xf4) (hb : IsTail b)
      (hshort : a.toNat = 0xf0 → 0x90 ≤ b.toNat) (hlong : a.toNat = 0xf4 → b.toNat ≤ 0x8f) :
      Began [a, b] ⟨2, (a.toNat - 0xf0) * 64 + (b.toNat - 0x80), 0x80, 0xbf⟩
  | fourThree {a b d : UInt8} (ha : 0xf0 ≤ a.toNat ∧ a.toNat ≤ 0xf4) (hb : IsTail b)
      (hd : IsTail d) (hshort : a.toNat = 0xf0 → 0x90 ≤ b.toNat)
      (hlong : a.toNat = 0xf4 → b.toNat ≤ 0x8f) :
      Began [a, b, d] ⟨1, ((a.toNat - 0xf0) * 64 + (b.toNat - 0x80)) * 64 + (d.toNat - 0x80),
        0x80, 0xbf⟩

/-- A number that a character has is the number of its character. -/
theorem toNat_ofNat {n : ℕ} (h : n < 0xd800 ∨ 0xdfff < n ∧ n < 0x110000) :
  (Char.ofNat n).toNat = n
  := by
  have hvalid : n.isValidChar := h
  rw [Char.ofNat, dif_pos hvalid]
  rfl

/-- A first byte begins a character, or is one. -/
theorem began_first (a : UInt8) :
  match first a.toNat with
  | .done c => Sequence c [a]
  | .more p => Began [a] p
  | .error => True
  := by
  rw [first]
  by_cases h₁ : a.toNat < 0x80
  · rw [if_pos h₁]
    apply Sequence.one h₁
    apply toNat_ofNat
    omega
  rw [if_neg h₁]
  by_cases h₂ : 0xc2 ≤ a.toNat ∧ a.toNat ≤ 0xdf
  · rw [if_pos h₂]
    apply Began.two h₂
  rw [if_neg h₂]
  by_cases h₃ : 0xe0 ≤ a.toNat ∧ a.toNat ≤ 0xef
  · rw [if_pos h₃]
    apply Began.three h₃
  rw [if_neg h₃]
  by_cases h₄ : 0xf0 ≤ a.toNat ∧ a.toNat ≤ 0xf4
  · rw [if_pos h₄]
    apply Began.four h₄
  · rw [if_neg h₄]
    trivial

/-- The byte that follows continues the character, or ends it. -/
theorem Began.next {p : Partial} (h : Began bs p) (b : UInt8) :
  match p.next b.toNat with
  | .done c => Sequence c (bs ++ [b])
  | .more q => Began (bs ++ [b]) q
  | .error => True
  := by
  rw [Partial.next]
  by_cases hbnd : p.low ≤ b.toNat ∧ b.toNat ≤ p.high
  case neg =>
    rw [if_neg hbnd]
    trivial
  rw [if_pos hbnd]
  cases h with
  | two ha =>
    apply Sequence.two ha hbnd
    dsimp only at hbnd
    rw [toNat_ofNat]
    dsimp only
    omega
  | three ha =>
    dsimp only at hbnd
    apply Began.threeTwo ha
    · constructor
      all_goals split_ifs at hbnd <;> omega
    · intro hshort
      rw [if_pos hshort] at hbnd
      omega
    · intro hsurr
      rw [if_pos hsurr] at hbnd
      omega
  | threeTwo ha hb hshort hsurr =>
    dsimp only at hbnd
    have hb₁ := hb.1
    have hb₂ := hb.2
    apply Sequence.three ha hb hbnd hshort hsurr
    rw [toNat_ofNat] <;> dsimp only <;> omega
  | four ha =>
    dsimp only at hbnd
    apply Began.fourTwo ha
    · constructor
      all_goals split_ifs at hbnd <;> omega
    · intro hshort
      rw [if_pos hshort] at hbnd
      omega
    · intro hlong
      rw [if_pos hlong] at hbnd
      omega
  | fourTwo ha hb hshort hlong => apply Began.fourThree ha hb hbnd hshort hlong
  | fourThree ha hb hd hshort hlong =>
  dsimp only at hbnd
  have hb₁ := hb.1
  have hb₂ := hb.2
  have hd₁ := hd.1
  have hd₂ := hd.2
  apply Sequence.four ha hb hd hbnd hshort
  rw [toNat_ofNat] <;> dsimp only <;> omega

/-- Bytes that are decoded without an error, with those of the character that has begun, are the
bytes of the text. -/
theorem encode_of_items :
  (items none bs = text.map some → encode text = bs) ∧
    ∀ {begun : List UInt8} {p : Partial}, Began begun p → items (some p) bs = text.map some →
      encode text = begun ++ bs
  := by
  induction bs generalizing text with
  | nil =>
    constructor
    · intro h
      obtain rfl : text = [] := by simpa [items] using h.symm
      rfl
    intro begun p hbegun h
    rw [items] at h
    cases text with
    | nil | cons c text => cases h
  | cons b bs ih =>
  have hdone {c : Char} {begun : List UInt8} (hc : Sequence c begun)
      (h : some c :: items none bs = text.map some) :
      encode text = begun ++ bs := by
    cases text with
    | nil => cases h
    | cons c' text =>
      rw [map_cons, List.cons.injEq, Option.some.injEq] at h
      obtain ⟨rfl, h⟩ := h
      rw [encode, flatMap_cons, encodeChar_of_sequence hc, ← encode, ih.1 h]
  have herror {rest : List (Option Char)} (h : none :: rest = text.map some) :
      False := by
    cases text with
    | nil | cons c text => cases h
  constructor
  · intro h
    rw [items] at h
    have hfirst := began_first b
    cases hb : first b.toNat with
    | done c =>
      rw [hb] at h hfirst
      apply hdone hfirst h
    | more p =>
      rw [hb] at h hfirst
      apply ih.2 hfirst h
    | error =>
      rw [hb] at h
      cases herror h
  intro begun p hbegun h
  rw [items] at h
  have hnext := hbegun.next b
  cases hb : p.next b.toNat with
  | done c =>
    rw [hb] at h hnext
    rw [hdone hnext h, append_assoc, singleton_append]
  | more q =>
    rw [hb] at h hnext
    rw [ih.2 hnext h, append_assoc, singleton_append]
  | error =>
    rw [hb] at h
    cases herror h

/-- There is no error when all items are characters. -/
theorem mapM_id_eq_some {l : List (Option Char)} (h : l.mapM id = some text) :
  l = text.map some
  := by
  induction l generalizing text with
  | nil =>
    obtain rfl : [] = text := by simpa using h
    rfl
  | cons c l ih =>
  cases c with
  | none => simp at h
  | some c =>
  cases hl : l.mapM id with
  | none => simp [hl] at h
  | some rest =>
    obtain rfl : c :: rest = text := by simpa [hl] using h
    rw [ih hl, map_cons]

/-- Bytes are decoded without an error to a text when they are its bytes. -/
theorem decodeFatal_eq_some_iff :
  decodeFatal bs = some text ↔ encode text = bs
  := by
  constructor
  · intro h
    apply encode_of_items.1
    apply mapM_id_eq_some h
  · rintro rfl
    apply decodeFatal_encode

end Utf8
