import Mathlib.Data.Nat.Notation
import Mathlib.Data.List.Basic

/-!
# Base64

Bytes as text, three of them in four characters of the URL alphabet and without padding. A reader
accepts both alphabets and passes over other characters; it reads back the bytes that were written
(`decode_encode`).
-/

namespace Base64

open List

/-- The digit of a number below 64. -/
def digit (n : ℕ) : Char :=
  if n < 26 then Char.ofNat (65 + n)
  else if n < 52 then Char.ofNat (71 + n)
  else if n < 62 then Char.ofNat (n - 4)
  else if n = 62 then '-' else '_'

/-- The number of a digit. -/
def value (c : Char) : Option ℕ :=
  if 'A' ≤ c ∧ c ≤ 'Z' then some (c.toNat - 65)
  else if 'a' ≤ c ∧ c ≤ 'z' then some (c.toNat - 71)
  else if '0' ≤ c ∧ c ≤ '9' then some (c.toNat + 4)
  else if c = '-' ∨ c = '+' then some 62
  else if c = '_' ∨ c = '/' then some 63
  else none

/-- The numbers below 64 that make up bytes. -/
def split : List UInt8 → List ℕ
  | [] => []
  | [a] => [a.toNat / 4, a.toNat % 4 * 16]
  | [a, b] => [a.toNat / 4, a.toNat % 4 * 16 + b.toNat / 16, b.toNat % 16 * 4]
  | a :: b :: c :: bytes =>
    a.toNat / 4 :: (a.toNat % 4 * 16 + b.toNat / 16) :: (b.toNat % 16 * 4 + c.toNat / 64) ::
      c.toNat % 64 :: split bytes

/-- The bytes that numbers below 64 make up. -/
def join : List ℕ → List UInt8
  | x :: y :: z :: w :: numbers =>
    .ofNat (x * 4 + y / 16) :: .ofNat (y % 16 * 16 + z / 4) :: .ofNat (z % 4 * 64 + w) ::
      join numbers
  | [x, y, z] => [.ofNat (x * 4 + y / 16), .ofNat (y % 16 * 16 + z / 4)]
  | [x, y] => [.ofNat (x * 4 + y / 16)]
  | _ => []

/-- `Buffer.from(bytes).toString('base64url')`. -/
def encode (bytes : List UInt8) : List Char :=
  (split bytes).map digit

/-- `Buffer.from(text, 'base64url')`. -/
def decode (text : List Char) : List UInt8 :=
  join (text.filterMap value)

theorem value_digit {n : ℕ} (h : n < 64) :
  value (digit n) = some n
  := by
  have hall : ∀ n : Fin 64, value (digit n) = some n.val := by decide
  apply hall ⟨n, h⟩

theorem split_lt (bytes : List UInt8) :
  ∀ n ∈ split bytes, n < 64
  := by
  induction bytes using split.induct with
  | case1 => simp [split]
  | case2 a =>
    have ha := a.toNat_lt
    simp only [split, mem_cons, not_mem_nil, or_false]
    omega
  | case3 a b =>
    have ha := a.toNat_lt
    have hb := b.toNat_lt
    simp only [split, mem_cons, not_mem_nil, or_false]
    omega
  | case4 a b c bytes ih =>
  have ha := a.toNat_lt
  have hb := b.toNat_lt
  have hc := c.toNat_lt
  simp only [split, mem_cons]
  rintro n (rfl | rfl | rfl | rfl | hn)
  · omega
  · omega
  · omega
  · omega
  · apply ih n hn

theorem ofNat_eq {a : UInt8} {n : ℕ} (h : n = a.toNat) :
  UInt8.ofNat n = a
  := by
  rw [h, UInt8.ofNat_toNat]

theorem join_split (bytes : List UInt8) :
  join (split bytes) = bytes
  := by
  induction bytes using split.induct with
  | case1 => rfl
  | case2 a =>
    have ha := a.toNat_lt
    rw [split, join, ofNat_eq (a := a) (by omega)]
  | case3 a b =>
    have ha := a.toNat_lt
    have hb := b.toNat_lt
    rw [split, join, ofNat_eq (a := a) (by omega), ofNat_eq (a := b) (by omega)]
  | case4 a b c bytes ih =>
  have ha := a.toNat_lt
  have hb := b.toNat_lt
  have hc := c.toNat_lt
  rw [split, join, ih, ofNat_eq (a := a) (by omega), ofNat_eq (a := b) (by omega),
    ofNat_eq (a := c) (by omega)]

/-- What is written is read back. -/
theorem decode_encode (bytes : List UInt8) :
  decode (encode bytes) = bytes
  := by
  have hvalues : ((split bytes).map digit).filterMap value = split bytes := by
    rw [filterMap_map]
    calc (split bytes).filterMap (value ∘ digit)
        = (split bytes).filterMap some := by
          apply filterMap_congr
          intro n hn
          apply value_digit (split_lt bytes n hn)
      _ = split bytes := filterMap_some
  rw [decode, encode, hvalues, join_split]

end Base64
