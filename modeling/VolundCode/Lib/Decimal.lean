import Mathlib.Tactic

/-!
# Decimal numbers

The finite numbers of a language whose number literals are decimal: a mantissa without
trailing zeros times a power of ten. `print` writes a number the way ECMAScript converts a
number to a string, with plain digits between `1e-7` and `1e21` and in exponent form outside,
and `scan` reads a number literal of JSON. What `print` writes, `scan` reads back
(`scan_print`).
-/

/-- A finite decimal number: `mantissa * 10 ^ exponent`, where the mantissa has no trailing
zero. -/
structure Decimal where
  mantissa : ℤ
  exponent : ℤ
  normal : (mantissa = 0 ∧ exponent = 0) ∨ mantissa % 10 ≠ 0
  deriving DecidableEq

namespace Decimal

open List

@[ext]
theorem ext {a b : Decimal} (hm : a.mantissa = b.mantissa) (he : a.exponent = b.exponent) :
  a = b
  := by
  cases a
  cases b
  simp_all

/-! ### Normal form -/

/-- Moves at most `n` trailing zeros of the mantissa into the exponent. -/
def strip : ℕ → ℤ → ℤ → ℤ × ℤ
  | 0, m, e => (m, e)
  | n + 1, m, e => if m % 10 = 0 then strip n (m / 10) (e + 1) else (m, e)

variable {e m : ℤ} {n : ℕ}

/-- Enough steps leave no trailing zero. -/
theorem strip_normal (hm : m ≠ 0) (hn : m.natAbs ≤ n) :
  (strip n m e).1 % 10 ≠ 0
  := by
  induction n generalizing m e with
  | zero => omega
  | succ n ih =>
  rw [strip]
  split
  · apply ih
    · omega
    · omega
  · next h => apply h

/-- A mantissa without trailing zeros is left as it is. -/
theorem strip_of_normal (hm : m % 10 ≠ 0) :
  strip n m e = (m, e)
  := by
  cases n with
  | zero => rfl
  | succ n => rw [strip, if_neg hm]

/-- A zero at the end of the mantissa counts as one in the exponent. -/
theorem strip_mul_ten :
  strip (n + 1) (m * 10) e = strip n m (e + 1)
  := by
  rw [strip, if_pos (by omega)]
  congr 1
  omega

/-- Zeros at the end of the mantissa count in the exponent. -/
theorem strip_mul_pow {k : ℕ} (hm : m % 10 ≠ 0) (hk : k ≤ n) :
  strip n (m * 10 ^ k) e = (m, e + k)
  := by
  induction k generalizing n e with
  | zero => simpa using strip_of_normal hm
  | succ k ih =>
  obtain ⟨n, rfl⟩ : ∃ l, n = l + 1 := ⟨n - 1, by omega⟩
  rw [pow_succ, ← mul_assoc, strip_mul_ten, ih (by omega)]
  push_cast
  ring_nf

/-- The number `m * 10 ^ e`. -/
def make (m e : ℤ) : Decimal :=
  if h : m = 0 then ⟨0, 0, Or.inl ⟨rfl, rfl⟩⟩
  else ⟨(strip m.natAbs m e).1, (strip m.natAbs m e).2, Or.inr (strip_normal h le_rfl)⟩

/-- A power of ten in the mantissa may stand in the exponent. -/
theorem make_mul_pow (d : Decimal) {k : ℕ} (he : d.mantissa ≠ 0 → e + k = d.exponent) :
  make (d.mantissa * 10 ^ k) e = d
  := by
  by_cases hm : d.mantissa = 0
  · have hexp : d.exponent = 0 := by
      rcases d.normal with h | h
      · apply h.2
      · simp [hm] at h
    apply Decimal.ext
    · simp [make, hm]
    · simp [make, hm, hexp]
  have hnormal : d.mantissa % 10 ≠ 0 := by
    rcases d.normal with h | h
    · apply absurd h.1 hm
    · apply h
  have hlt : k < 10 ^ k := Nat.lt_pow_self (by decide)
  have hk : k ≤ (d.mantissa * 10 ^ k).natAbs := by
    rw [Int.natAbs_mul, Int.natAbs_pow]
    have hpos : 0 < d.mantissa.natAbs := Int.natAbs_pos.mpr hm
    calc k ≤ 10 ^ k := hlt.le
      _ ≤ d.mantissa.natAbs * 10 ^ k := Nat.le_mul_of_pos_left _ hpos
  have hne : d.mantissa * 10 ^ k ≠ 0 := mul_ne_zero hm (by positivity)
  rw [make, dif_neg hne]
  apply Decimal.ext
  · simp only [strip_mul_pow hnormal hk]
  · simp only [strip_mul_pow hnormal hk, he hm]

instance : OfNat Decimal n where
  ofNat := make n 0

instance : Inhabited Decimal := ⟨0⟩

/-- The number as a rational. -/
def toRat (d : Decimal) : ℚ :=
  d.mantissa * (10 : ℚ) ^ d.exponent

/-- Stripping zeros keeps what the mantissa and the exponent stand for. -/
theorem strip_value (n : ℕ) (m e : ℤ) :
  ∃ k : ℕ, (strip n m e).2 = e + k ∧ (strip n m e).1 * 10 ^ k = m
  := by
  induction n generalizing m e with
  | zero => exact ⟨0, by simp [strip], by simp [strip]⟩
  | succ n ih =>
  rw [strip]
  split_ifs with h
  · obtain ⟨k, hexp, hval⟩ := ih (m / 10) (e + 1)
    refine ⟨k + 1, ?_, ?_⟩
    · rw [hexp]
      push_cast
      ring
    · rw [pow_succ, ← mul_assoc, hval]
      omega
  · exact ⟨0, by simp, by simp⟩

/-- The number as an integer, if it is one. -/
def integer (d : Decimal) : Option ℤ :=
  if 0 ≤ d.exponent then some (d.mantissa * 10 ^ d.exponent.toNat) else none

/-- An integer is the integer it is. -/
theorem integer_make (n : ℤ) :
  (make n 0).integer = some n
  := by
  by_cases hn : n = 0
  · simp [make, integer, hn]
  obtain ⟨k, hexp, hval⟩ := strip_value n.natAbs n 0
  have hk : (0 : ℤ) + k = k := zero_add _
  rw [make, dif_neg hn, integer]
  simp only [hexp, hk, Int.toNat_natCast, hval, Int.natCast_nonneg, if_true]

/-! ### Writing -/

/-- The characters of a natural number. -/
abbrev digits (n : ℕ) : List Char :=
  Nat.toDigits 10 n

/-- The text of a number without its sign: of the number `ds * 10 ^ e`, where `ds` are the
digits of the mantissa. -/
def printDigits (ds : List Char) (e : ℤ) : List Char :=
  let k : ℤ := ds.length
  let n : ℤ := k + e
  if k ≤ n ∧ n ≤ 21 then ds ++ List.replicate e.toNat '0'
  else if 0 < n ∧ n ≤ 21 then ds.take n.toNat ++ '.' :: ds.drop n.toNat
  else if -6 < n ∧ n ≤ 0 then '0' :: '.' :: (List.replicate (-n).toNat '0' ++ ds)
  else
    let fraction := match ds.drop 1 with
      | [] => []
      | rest => '.' :: rest
    let sign := if n - 1 < 0 then '-' else '+'
    ds.take 1 ++ fraction ++ 'e' :: sign :: digits (n - 1).natAbs

/-- The text of a number. -/
def print (d : Decimal) : List Char :=
  if d.mantissa < 0 then '-' :: printDigits (digits d.mantissa.natAbs) d.exponent
  else printDigits (digits d.mantissa.natAbs) d.exponent

/-! ### Reading -/

/-- The digits after the point, if there is a point. -/
def scanFraction : List Char → Option (List Char × List Char)
  | '.' :: s =>
    match s.takeWhile Char.isDigit with
    | [] => none
    | ds => some (ds, s.dropWhile Char.isDigit)
  | s => some ([], s)

/-- The sign of an exponent: whether it is negative, and the text after it. -/
def scanSign : List Char → Bool × List Char
  | '-' :: s => (true, s)
  | '+' :: s => (false, s)
  | s => (false, s)

/-- The exponent, if there is one. -/
def scanExponent (s : List Char) : Option (ℤ × List Char) :=
  if s.head? = some 'e' ∨ s.head? = some 'E' then
    let (neg, t) := scanSign s.tail
    match t.takeWhile Char.isDigit with
    | [] => none
    | ds =>
      let x : ℤ := Nat.ofDigitChars 10 ds 0
      some (if neg then -x else x, t.dropWhile Char.isDigit)
  else some (0, s)

/-- The digits before the point: at least one, and no zero before another. -/
def scanInteger (s : List Char) : Option (List Char × List Char) :=
  match s.takeWhile Char.isDigit with
  | [] => none
  | '0' :: _ :: _ => none
  | ds => some (ds, s.dropWhile Char.isDigit)

/-- The number without its sign at the start of the text. -/
def scanUnsigned (s : List Char) : Option (ℕ × ℤ × List Char) :=
  match scanInteger s with
  | none => none
  | some (ds, s) =>
    match scanFraction s with
    | none => none
    | some (fs, s) =>
      match scanExponent s with
      | none => none
      | some (x, s) => some (Nat.ofDigitChars 10 (ds ++ fs) 0, x - fs.length, s)

/-- The number at the start of the text, and the text after it. -/
def scan : List Char → Option (Decimal × List Char)
  | '-' :: s =>
    match scanUnsigned s with
    | none => none
    | some (m, e, s) => some (make (-m) e, s)
  | s =>
    match scanUnsigned s with
    | none => none
    | some (m, e, s) => some (make m e, s)

/-! ### What is written is read back -/

/-- The text does not start with a digit. -/
def NoDigit (s : List Char) : Prop :=
  ∀ c ∈ s.head?, c.isDigit = false

/-- A number at the start of a text ends before `s`: `s` starts neither with a digit nor with
a point nor with an exponent. -/
def Ends (s : List Char) : Prop :=
  ∀ c ∈ s.head?, c.isDigit = false ∧ c ≠ '.' ∧ c ≠ 'e' ∧ c ≠ 'E'

variable {s : List Char}

theorem Ends.noDigit (h : Ends s) :
  NoDigit s
  := fun c hc => (h c hc).1

theorem Ends.nil : Ends [] := by
  intro c hc
  cases hc

variable {ds : List Char}

/-- The leading digits of digits followed by something else are the digits. -/
theorem takeWhile_digits (hds : ∀ c ∈ ds, c.isDigit) (hs : NoDigit s) :
  (ds ++ s).takeWhile Char.isDigit = ds ∧ (ds ++ s).dropWhile Char.isDigit = s
  := by
  rw [takeWhile_append_of_pos hds, dropWhile_append_of_pos hds]
  cases s with
  | nil => simp
  | cons c s =>
    have hc : c.isDigit = false := hs c rfl
    rw [takeWhile_cons_of_neg (by simp [hc]), dropWhile_cons_of_neg (by simp [hc])]
    simp

variable {c : Char}

/-- The characters of a natural number are digits. -/
theorem digits_isDigit (hc : c ∈ digits n) :
  c.isDigit
  := Nat.isDigit_of_mem_toDigits (by decide) (by decide) hc

/-- A positive number does not start with a zero. -/
theorem digits_head_ne_zero (hn : 0 < n) :
  (digits n).head? ≠ some '0'
  := by
  induction n using Nat.strong_induction_on with
  | _ n ih =>
  rcases Nat.lt_or_ge n 10 with hlt | hge
  · rw [digits, Nat.toDigits_of_lt_base hlt]
    interval_cases n <;> decide
  rw [digits, Nat.toDigits_of_base_le (by decide) hge, List.head?_append]
  have hhead := ih (n / 10) (by omega) (by omega)
  cases h : (digits (n / 10)).head? with
  | none =>
    apply absurd (List.head?_eq_none_iff.mp h)
    apply Nat.toDigits_ne_nil
  | some c =>
    rw [h] at hhead
    apply hhead

/-- Digits without a zero before another are read whole. -/
theorem scanInteger_append (hne : ds ≠ [])
    (hds : ∀ c ∈ ds, c.isDigit) (hhead : ds = ['0'] ∨ ds.head? ≠ some '0') (hs : NoDigit s) :
  scanInteger (ds ++ s) = some (ds, s)
  := by
  obtain ⟨htake, hdrop⟩ := takeWhile_digits hds hs
  rw [scanInteger, htake, hdrop]
  split
  · next h => apply absurd rfl hne
  · next h => simp at hhead
  · rfl

/-- No point, no fraction. -/
theorem scanFraction_of_ends (hs : ∀ c ∈ s.head?, c ≠ '.') :
  scanFraction s = some ([], s)
  := by
  rw [scanFraction.eq_def]
  split
  · apply absurd rfl (hs '.' rfl)
  · rfl

/-- The digits after a point are read whole. -/
theorem scanFraction_point (hne : ds ≠ []) (hds : ∀ c ∈ ds, c.isDigit) (hs : NoDigit s) :
  scanFraction ('.' :: (ds ++ s)) = some (ds, s)
  := by
  obtain ⟨htake, hdrop⟩ := takeWhile_digits hds hs
  rw [scanFraction, htake, hdrop]
  split
  · apply absurd rfl hne
  · rfl

/-- No mark of an exponent, no exponent. -/
theorem scanExponent_of_ends (hs : ∀ c ∈ s.head?, c ≠ 'e' ∧ c ≠ 'E') :
  scanExponent s = some (0, s)
  := by
  rw [scanExponent, if_neg]
  rintro (h | h)
  · apply (hs _ h).1 rfl
  · apply (hs _ h).2 rfl

/-- An exponent with its sign is read whole. -/
theorem scanExponent_mark {x : ℤ} (hs : NoDigit s) :
  scanExponent ('e' :: (if x < 0 then '-' else '+') :: (digits x.natAbs ++ s)) = some (x, s)
  := by
  have hsign : scanSign ((if x < 0 then '-' else '+') :: (digits x.natAbs ++ s)) =
      (decide (x < 0), digits x.natAbs ++ s) := by
    split
    all_goals next h => simp [scanSign, h]
  obtain ⟨htake, hdrop⟩ := takeWhile_digits (fun c => digits_isDigit (n := x.natAbs)) hs
  simp only [scanExponent, List.head?_cons, true_or, if_true, tail_cons, hsign, htake, hdrop]
  cases hd : digits x.natAbs with
  | nil => apply absurd hd Nat.toDigits_ne_nil
  | cons c cs =>
  simp only
  rw [← hd, Nat.ofDigitChars_ten_toDigits]
  simp only [decide_eq_true_eq, Option.some.injEq, Prod.mk.injEq, and_true]
  split
  · omega
  · omega

/-- An integer, a fraction and an exponent read in turn. -/
theorem scanUnsigned_eq {s₁ s₂ s₃ fs : List Char} {x : ℤ}
    (hi : scanInteger s = some (ds, s₁)) (hf : scanFraction s₁ = some (fs, s₂))
    (hx : scanExponent s₂ = some (x, s₃)) :
  scanUnsigned s = some (Nat.ofDigitChars 10 (ds ++ fs) 0, x - fs.length, s₃)
  := by
  simp only [scanUnsigned, hi, hf, hx]

/-- The digits of a number start with a zero only if the number is zero. -/
theorem digits_head (m : ℕ) :
  digits m = ['0'] ∨ (digits m).head? ≠ some '0'
  := by
  rcases Nat.eq_zero_or_pos m with rfl | hm
  · left
    rfl
  · right
    apply digits_head_ne_zero hm

theorem digits_ne_nil (m : ℕ) : digits m ≠ [] :=
  Nat.toDigits_ne_nil

/-- The characters of a number and zeros before or after them are digits. -/
theorem mem_replicate_isDigit (hc : c ∈ List.replicate n '0') :
  c.isDigit
  := by
  rw [eq_of_mem_replicate hc]
  rfl

theorem noDigit_point (s : List Char) : NoDigit ('.' :: s) := by
  intro c hc
  obtain rfl : '.' = c := by simpa using hc
  rfl

theorem noDigit_mark (s : List Char) : NoDigit ('e' :: s) := by
  intro c hc
  obtain rfl : 'e' = c := by simpa using hc
  rfl

section Forms

variable {m : ℕ} {s : List Char}

/-- Digits followed by zeros. -/
theorem scanUnsigned_plain {k : ℕ} (hm : m = 0 → k = 0) (hs : Ends s) :
  scanUnsigned (digits m ++ List.replicate k '0' ++ s) = some (m * 10 ^ k, 0, s)
  := by
  have hint : scanInteger (digits m ++ List.replicate k '0' ++ s) =
      some (digits m ++ List.replicate k '0', s) := by
    apply scanInteger_append
    · simp
    · intro c hc
      rcases mem_append.mp hc with hc | hc
      · apply digits_isDigit hc
      · apply mem_replicate_isDigit hc
    · rcases Nat.eq_zero_or_pos m with rfl | hpos
      · left
        rw [hm rfl]
        rfl
      · right
        rw [List.head?_append_of_ne_nil _ (digits_ne_nil m)]
        apply digits_head_ne_zero hpos
    · apply hs.noDigit
  rw [scanUnsigned_eq hint (scanFraction_of_ends fun c hc => (hs c hc).2.1)
    (scanExponent_of_ends fun c hc => (hs c hc).2.2)]
  simp [Nat.ofDigitChars_append, mul_comm]

/-- Digits with a point among them. -/
theorem scanUnsigned_point {n : ℕ} (hpos : 0 < n) (hn : n < (digits m).length) (hs : Ends s) :
  scanUnsigned ((digits m).take n ++ '.' :: ((digits m).drop n ++ s)) =
    some (m, (n : ℤ) - (digits m).length, s)
  := by
  have hint : scanInteger ((digits m).take n ++ '.' :: ((digits m).drop n ++ s)) =
      some ((digits m).take n, '.' :: ((digits m).drop n ++ s)) := by
    apply scanInteger_append
    · simp only [ne_eq, take_eq_nil_iff, digits_ne_nil, or_false]
      omega
    · intro c hc
      apply digits_isDigit (mem_of_mem_take hc)
    · rcases digits_head m with h | h
      · rw [h] at hn
        simp only [length_cons, length_nil] at hn
        omega
      · right
        rw [List.head?_take, if_neg (by omega)]
        apply h
    · apply noDigit_point
  have hfrac : scanFraction ('.' :: ((digits m).drop n ++ s)) = some ((digits m).drop n, s) := by
    apply scanFraction_point
    · simp only [ne_eq, drop_eq_nil_iff]
      omega
    · intro c hc
      apply digits_isDigit (mem_of_mem_drop hc)
    · apply hs.noDigit
  rw [scanUnsigned_eq hint hfrac (scanExponent_of_ends fun c hc => (hs c hc).2.2),
    take_append_drop, Nat.ofDigitChars_ten_toDigits, length_drop]
  simp only [Option.some.injEq, Prod.mk.injEq, true_and, and_true]
  omega

/-- Zeros after the point before the digits. -/
theorem scanUnsigned_small {z : ℕ} (hs : Ends s) :
  scanUnsigned ('0' :: '.' :: (List.replicate z '0' ++ digits m ++ s)) =
    some (m, -(z : ℤ) - (digits m).length, s)
  := by
  have hint : scanInteger (['0'] ++ '.' :: (List.replicate z '0' ++ digits m ++ s)) =
      some (['0'], '.' :: (List.replicate z '0' ++ digits m ++ s)) := by
    apply scanInteger_append
    · simp
    · simp
    · left
      rfl
    · apply noDigit_point
  have hfrac : scanFraction ('.' :: (List.replicate z '0' ++ digits m ++ s)) =
      some (List.replicate z '0' ++ digits m, s) := by
    apply scanFraction_point
    · simp
    · intro c hc
      rcases mem_append.mp hc with hc | hc
      · apply mem_replicate_isDigit hc
      · apply digits_isDigit hc
    · apply hs.noDigit
  rw [singleton_append] at hint
  rw [scanUnsigned_eq hint hfrac (scanExponent_of_ends fun c hc => (hs c hc).2.2)]
  simp [Nat.ofDigitChars_append, Nat.ofDigitChars_cons]
  omega

/-- One digit, the others after a point, and an exponent. -/
theorem scanUnsigned_scientific {x : ℤ} {fraction : List Char}
    (hfrac : fraction = match (digits m).drop 1 with | [] => [] | rest => '.' :: rest)
    (hs : Ends s) :
  scanUnsigned ((digits m).take 1 ++ fraction ++
      'e' :: (if x < 0 then '-' else '+') :: (digits x.natAbs ++ s)) =
    some (m, x + 1 - (digits m).length, s)
  := by
  obtain ⟨d, ds, hd⟩ := exists_cons_of_ne_nil (digits_ne_nil m)
  have hdigit : ∀ c ∈ d :: ds, c.isDigit := by
    rw [← hd]
    intro c hc
    apply digits_isDigit hc
  have hexp := scanExponent_mark (x := x) hs.noDigit
  rw [hd, drop_one, tail_cons] at hfrac
  rw [hd, take_succ_cons, take_zero]
  generalize hmark : 'e' :: (if x < 0 then '-' else '+') :: (digits x.natAbs ++ s) = t
    at hexp ⊢
  have hint : scanInteger ([d] ++ fraction ++ t) = some ([d], fraction ++ t) := by
    rw [append_assoc]
    apply scanInteger_append
    · simp
    · intro c hc
      apply hdigit c
      simp_all
    · by_cases hzero : d = '0'
      · left
        rw [hzero]
      · right
        simpa using hzero
    cases ds with
    | nil =>
      rw [hfrac, ← hmark]
      apply noDigit_mark
    | cons c cs =>
      rw [hfrac]
      apply noDigit_point
  have hfraction : scanFraction (fraction ++ t) = some (ds, t) := by
    cases ds with
    | nil =>
      rw [hfrac, ← hmark]
      apply scanFraction_of_ends
      intro c hc
      obtain rfl : 'e' = c := by simpa using hc
      decide
    | cons c cs =>
    rw [hfrac]
    apply scanFraction_point
    · simp
    · intro c hc
      apply hdigit c (mem_cons_of_mem _ hc)
    · rw [← hmark]
      apply noDigit_mark
  rw [scanUnsigned_eq hint hfraction hexp, singleton_append, ← hd, Nat.ofDigitChars_ten_toDigits]
  simp only [hd, length_cons, Option.some.injEq, Prod.mk.injEq, true_and, and_true]
  push_cast
  omega

end Forms

/-- What is written for the number `m * 10 ^ e` is read back, up to zeros at the end of the
mantissa. -/
theorem scanUnsigned_printDigits {m : ℕ} (hm : m = 0 → e = 0) (hs : Ends s) :
  ∃ (k : ℕ) (x : ℤ), scanUnsigned (printDigits (digits m) e ++ s) = some (m * 10 ^ k, x, s) ∧
    x + k = e
  := by
  have hpos : 0 < (digits m).length := length_pos_iff.mpr (digits_ne_nil m)
  simp only [printDigits]
  split
  · rename_i h
    use e.toNat, 0
    constructor
    · apply scanUnsigned_plain _ hs
      intro hzero
      rw [hm hzero]
      rfl
    · omega
  split
  · rename_i h₁ h₂
    use 0, e
    have hscan := scanUnsigned_point (m := m)
      (n := (((digits m).length : ℤ) + e).toNat) (by omega) (by omega) hs
    rw [append_assoc, cons_append, hscan]
    simp only [pow_zero, mul_one, Option.some.injEq, Prod.mk.injEq, true_and, and_true]
    omega
  split
  · rename_i h₁ h₂ h₃
    use 0, e
    have hscan := scanUnsigned_small (m := m)
      (z := (-(((digits m).length : ℤ) + e)).toNat) hs
    rw [cons_append, cons_append, hscan]
    simp only [pow_zero, mul_one, Option.some.injEq, Prod.mk.injEq, true_and, and_true]
    omega
  use 0, e
  have hscan := scanUnsigned_scientific (m := m)
    (x := ((digits m).length : ℤ) + e - 1) rfl hs
  rw [append_assoc, cons_append, cons_append, hscan]
  simp only [pow_zero, mul_one, Option.some.injEq, Prod.mk.injEq, true_and, and_true]
  omega

variable {t : List Char}

/-- A number without a sign is read as it is. -/
theorem scan_of_unsigned {m : ℕ} (h : scanUnsigned s = some (m, e, t)) :
  scan s = some (make m e, t)
  := by
  rw [scan.eq_def]
  split
  · rename_i r
    have hnone : scanUnsigned ('-' :: r) = none := by
      simp [scanUnsigned, scanInteger, takeWhile_cons_of_neg]
    rw [hnone] at h
    cases h
  · simp only [h]

/-- A number written before a text with which no number goes on is read back. -/
theorem scan_print (d : Decimal) (hs : Ends s) :
  scan (print d ++ s) = some (d, s)
  := by
  have hzero : d.mantissa.natAbs = 0 → d.exponent = 0 := by
    rcases d.normal with h | h
    · intro _
      apply h.2
    · omega
  obtain ⟨k, x, hscan, hx⟩ := scanUnsigned_printDigits hzero hs
  rw [print]
  split
  · rename_i hneg
    rw [cons_append, scan, hscan]
    have hmake := make_mul_pow d (k := k) (e := x) (fun _ => hx)
    have hm : -((d.mantissa.natAbs * 10 ^ k : ℕ) : ℤ) = d.mantissa * 10 ^ k := by
      push_cast
      rw [abs_of_neg hneg]
      ring
    simp only [hm, hmake]
  rename_i hneg
  rw [scan_of_unsigned hscan]
  have hmake := make_mul_pow d (k := k) (e := x) (fun _ => hx)
  have hm : ((d.mantissa.natAbs * 10 ^ k : ℕ) : ℤ) = d.mantissa * 10 ^ k := by
    push_cast
    rw [abs_of_nonneg (by omega)]
  simp only [hm, hmake]

/-! ### A number that ends before the end of the text -/

/-! ### No control characters -/

/-- Digits are no control characters. -/
theorem digits_printable (hc : c ∈ digits n) :
  0x20 ≤ c.toNat
  := by
  have hrange : 48 ≤ c.toNat ∧ c.toNat ≤ 57 := Char.isDigit_iff_toNat.mp (digits_isDigit hc)
  omega

/-- What is written for digits and an exponent has no control characters, if the digits have
none. -/
theorem printDigits_printable (hds : ∀ c ∈ ds, 0x20 ≤ c.toNat) :
  ∀ c ∈ printDigits ds e, 0x20 ≤ c.toNat
  := by
  have hzeros : ∀ n, ∀ c ∈ List.replicate n '0', 0x20 ≤ c.toNat := by
    intro n c h
    rw [eq_of_mem_replicate h]
    decide
  have htake : ∀ n, ∀ c ∈ ds.take n, 0x20 ≤ c.toNat := fun n c h => hds c (mem_of_mem_take h)
  have hdrop : ∀ n, ∀ c ∈ ds.drop n, 0x20 ≤ c.toNat := fun n c h => hds c (mem_of_mem_drop h)
  have hfrac : ∀ c ∈ (match ds.drop 1 with | [] => [] | rest => '.' :: rest), 0x20 ≤ c.toNat := by
    split
    · simp
    · simp only [forall_mem_cons]
      exact ⟨by decide, hdrop 1⟩
  have hsign : ∀ n : ℤ, 0x20 ≤ (if n < 0 then '-' else '+').toNat := by
    intro n
    split
    · decide
    · decide
  simp only [printDigits]
  split
  · simp only [forall_mem_append]
    exact ⟨hds, hzeros _⟩
  split
  · simp only [forall_mem_append, forall_mem_cons]
    exact ⟨htake _, by decide, hdrop _⟩
  split
  · simp only [forall_mem_append, forall_mem_cons]
    exact ⟨by decide, by decide, hzeros _, hds⟩
  · simp only [forall_mem_append, forall_mem_cons]
    exact ⟨⟨htake 1, hfrac⟩, by decide, hsign _, fun c => digits_printable⟩

/-- What is written for a number has no control characters. -/
theorem print_printable (d : Decimal) :
  ∀ c ∈ d.print, 0x20 ≤ c.toNat
  := by
  have hdig : ∀ c ∈ printDigits (digits d.mantissa.natAbs) d.exponent, 0x20 ≤ c.toNat :=
    printDigits_printable fun c => digits_printable
  rw [print]
  split_ifs
  · simp only [forall_mem_cons]
    exact ⟨by decide, hdig⟩
  · exact hdig

/-! ### What is read over -/

/-- A character of a number. -/
def isNumberChar (c : Char) : Bool :=
  c.isDigit || c = '-' || c = '+' || c = '.' || c = 'e' || c = 'E'

/-- A reader has read over characters of a number only. -/
def ReadsOver (s t : List Char) : Prop :=
  ∃ a, s = a ++ t ∧ ∀ c ∈ a, isNumberChar c

theorem ReadsOver.refl (s : List Char) : ReadsOver s s :=
  ⟨[], rfl, forall_mem_nil _⟩

theorem ReadsOver.trans {u : List Char} (h : ReadsOver s t) (h' : ReadsOver t u) :
  ReadsOver s u
  := by
  obtain ⟨a, rfl, ha⟩ := h
  obtain ⟨b, rfl, hb⟩ := h'
  use a ++ b, (append_assoc a b u).symm
  rw [forall_mem_append]
  exact ⟨ha, hb⟩

theorem ReadsOver.cons (hc : isNumberChar c) (h : ReadsOver s t) :
  ReadsOver (c :: s) t
  := by
  obtain ⟨a, rfl, ha⟩ := h
  use c :: a, rfl
  rw [forall_mem_cons]
  exact ⟨hc, ha⟩

theorem readsOver_digits (s : List Char) :
  ReadsOver s (s.dropWhile Char.isDigit)
  := by
  use s.takeWhile Char.isDigit, takeWhile_append_dropWhile.symm
  intro c hc
  have hdigit := all_eq_true.mp all_takeWhile c hc
  simp [isNumberChar, hdigit]

theorem readsOver_scanInteger (h : scanInteger s = some (ds, t)) :
  ReadsOver s t
  := by
  rw [scanInteger] at h
  split at h
  · cases h
  · cases h
  · cases h
    exact readsOver_digits s

theorem readsOver_scanFraction {fs : List Char} (h : scanFraction s = some (fs, t)) :
  ReadsOver s t
  := by
  rw [scanFraction.eq_def] at h
  split at h
  · split at h
    · cases h
    · cases h
      exact (readsOver_digits _).cons rfl
  · cases h
    exact .refl s

theorem readsOver_scanSign (s : List Char) :
  ReadsOver s (scanSign s).2
  := by
  rw [scanSign.eq_def]
  split
  · exact (ReadsOver.refl _).cons rfl
  · exact (ReadsOver.refl _).cons rfl
  · exact .refl s

theorem readsOver_scanExponent (h : scanExponent s = some (e, t)) :
  ReadsOver s t
  := by
  rw [scanExponent] at h
  split at h
  · rename_i hmark
    obtain ⟨c, r, rfl⟩ := exists_cons_of_ne_nil (l := s) (by rintro rfl; simp at hmark)
    have hc : isNumberChar c := by
      simp only [List.head?_cons, Option.some.injEq] at hmark
      rcases hmark with rfl | rfl <;> rfl
    rw [tail_cons] at h
    dsimp only at h
    split at h
    · cases h
    · cases h
      exact ((readsOver_scanSign r).trans (readsOver_digits _)).cons hc
  · cases h
    exact .refl s

theorem readsOver_scanUnsigned {m : ℕ} (h : scanUnsigned s = some (m, e, t)) :
  ReadsOver s t
  := by
  rw [scanUnsigned] at h
  split at h
  · cases h
  rename_i ds s₁ hi
  split at h
  · cases h
  rename_i fs s₂ hf
  split at h
  · cases h
  rename_i x s₃ hx
  simp only [Option.some.injEq, Prod.mk.injEq] at h
  obtain ⟨-, -, rfl⟩ := h
  exact (readsOver_scanInteger hi).trans
    ((readsOver_scanFraction hf).trans (readsOver_scanExponent hx))

/-- A number has only these characters. -/
theorem readsOver_scan {d : Decimal} (h : scan s = some (d, t)) :
  ReadsOver s t
  := by
  rw [scan.eq_def] at h
  split at h
  · split at h
    · cases h
    · rename_i hu
      cases h
      exact (readsOver_scanUnsigned hu).cons rfl
  split at h
  · cases h
  · rename_i hu
    cases h
    exact readsOver_scanUnsigned hu

end Decimal
