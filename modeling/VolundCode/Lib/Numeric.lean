import VolundCode.Lib.Dynamic
import VolundCode.Lib.Ecma

/-!
# Numbers in ECMAScript

What ECMAScript takes a value of parsed JSON for where it compares it with a number: a number stays
what it is, a text is read as a number, an array or object by its text, and what is none of these is
not a number, which no comparison holds of. How a decimal number is rounded is a parameter.
-/

namespace Js

/-- A number with the two infinities. -/
abbrev Extended := WithBot (WithTop ℚ)

/-- A number, or what is not a number. -/
abbrev Number := Option Extended

/-- `a > b`. -/
def greater (a b : Number) : Bool :=
  match a, b with
  | some a, some b => decide (b < a)
  | _, _ => false

/-- `a >= b`. -/
def reaches (a b : Number) : Bool :=
  match a, b with
  | some a, some b => decide (b ≤ a)
  | _, _ => false

/-- What reaches a bound reaches one that is not greater. -/
theorem reaches_of_not_greater {a b c : Number} (h : reaches c b) (ha : a ≠ none)
    (hab : greater a b = false) :
  reaches c a
  := by
  obtain ⟨x, rfl⟩ := Option.ne_none_iff_exists'.mp ha
  cases c with
  | none => cases h
  | some z =>
  cases b with
  | none => cases h
  | some y =>
    have hzy : y ≤ z := of_decide_eq_true h
    have hxy : ¬ y < x := of_decide_eq_false hab
    exact decide_eq_true ((not_lt.mp hxy).trans hzy)

/-! ### Texts -/

/-- The number that digits of a base make. -/
def digits (base : ℕ) (digit : Char → Option ℕ) (text : List Char) : Option ℕ :=
  if text = [] then none
  else text.foldlM (fun n c => (digit c).bind fun d => if d < base then some (base * n + d) else none) 0

/-- The digit that a character is. -/
def digitOf (c : Char) : Option ℕ :=
  if '0' ≤ c ∧ c ≤ '9' then some (c.toNat - '0'.toNat)
  else if 'a' ≤ c ∧ c ≤ 'f' then some (c.toNat - 'a'.toNat + 10)
  else if 'A' ≤ c ∧ c ≤ 'F' then some (c.toNat - 'A'.toNat + 10)
  else none

/-- The exponent at the end of a decimal number. -/
def exponentOf : List Char → Option ℤ
  | [] => some 0
  | e :: rest =>
    if e = 'e' ∨ e = 'E' then
      match rest with
      | '+' :: rest => (digits 10 digitOf rest).map fun n => (n : ℤ)
      | '-' :: rest => (digits 10 digitOf rest).map fun n => -(n : ℤ)
      | rest => (digits 10 digitOf rest).map fun n => (n : ℤ)
    else none

/-- A decimal number without a sign. -/
def decimalOf (text : List Char) : Option ℚ :=
  let whole := text.takeWhile Char.isDigit
  let rest := text.dropWhile Char.isDigit
  let (fraction, rest) :=
    match rest with
    | '.' :: rest => (rest.takeWhile Char.isDigit, rest.dropWhile Char.isDigit)
    | rest => ([], rest)
  (digits 10 digitOf (whole ++ fraction)).bind fun n =>
    (exponentOf rest).map fun e => (n : ℚ) * 10 ^ (e - (fraction.length : ℤ))

variable (round : ℚ → Extended)

/-- A decimal number or `Infinity`, with a sign. -/
def signedOf (negative : Bool) (text : List Char) : Number :=
  if text = "Infinity".toList then some (if negative then ⊥ else ((⊤ : WithTop ℚ) : Extended))
  else (decimalOf text).map fun q => round (if negative then -q else q)

/-- `Number(s)` for a text. -/
def textNumber (s : String) : Number :=
  match (Ecma.trim s).toList with
  | [] => some (round 0)
  | '+' :: text => signedOf round false text
  | '-' :: text => signedOf round true text
  | '0' :: x :: text =>
    if x = 'x' ∨ x = 'X' then (digits 16 digitOf text).map fun n => round n
    else if x = 'o' ∨ x = 'O' then (digits 8 digitOf text).map fun n => round n
    else if x = 'b' ∨ x = 'B' then (digits 2 digitOf text).map fun n => round n
    else signedOf round false ('0' :: x :: text)
  | text => signedOf round false text

/-- `Number(v)`: an array or object is read by its text. -/
def toNumber : Json → Except Thrown Number
  | .null => .ok (some (round 0))
  | .bool b => .ok (some (round (if b then 1 else 0)))
  | .num d => .ok (some (round d.toRat))
  | .str s => .ok (textNumber round s)
  | v => (toText v).map fun s => textNumber round s

end Js
