import Mathlib

/-!
# Strings of ECMAScript

The operations of ECMAScript on strings that are not operations of Lean, for strings of
Unicode scalar values.
-/

namespace Ecma

/-- The white space of `\s` in a regular expression and of `trim`. -/
def isSpace (c : Char) : Bool :=
  decide ((0x9 ≤ c.toNat ∧ c.toNat ≤ 0xd) ∨ (0x2000 ≤ c.toNat ∧ c.toNat ≤ 0x200a) ∨
    c.toNat ∈ [0x20, 0xa0, 0x1680, 0x2028, 0x2029, 0x202f, 0x205f, 0x3000, 0xfeff])

/-- A digit is not white space. -/
theorem isSpace_of_isDigit {c : Char} (h : c.isDigit) :
  isSpace c = false
  := by
  have hrange : 48 ≤ c.toNat ∧ c.toNat ≤ 57 := Char.isDigit_iff_toNat.mp h
  simp only [isSpace, decide_eq_false_iff_not, List.mem_cons, List.not_mem_nil, or_false]
  omega

/-- `s.startsWith(p)`. -/
def startsWith (s p : String) : Bool :=
  p.toList.isPrefixOf s.toList

/-- `s.endsWith(p)`. -/
def endsWith (s p : String) : Bool :=
  p.toList.isSuffixOf s.toList

/-- `s.slice(n)`. -/
def slice (s : String) (n : ℕ) : String :=
  String.ofList (s.toList.drop n)

/-- `s.trimEnd()`. -/
def trimEnd (s : String) : String :=
  String.ofList (s.toList.reverse.dropWhile isSpace).reverse

/-- `s.trim()`. -/
def trim (s : String) : String :=
  trimEnd (String.ofList (s.toList.dropWhile isSpace))

/-- `s.replaceAll(c, t)` for a single character `c`. -/
def replaceAll (s : String) (c : Char) (t : String) : String :=
  String.ofList (s.toList.flatMap fun d => if d = c then t.toList else [d])

/-- The characters of a string that begin within its first `n` UTF-16 code units. -/
def takeUnits : ℕ → List Char → List Char
  | _, [] => []
  | n, c :: cs =>
    let units := if c.toNat < 0x10000 then 1 else 2
    if units ≤ n then c :: takeUnits (n - units) cs else []

/-- `s.slice(0, n)`, without the half of a surrogate pair that would end it. -/
def sliceTo (s : String) (n : ℕ) : String :=
  String.ofList (takeUnits n s.toList)

/-- Whether some character of the text is one of these. -/
def includesAny (s : String) (cs : List Char) : Bool :=
  s.toList.any fun c => cs.contains c

/-- The UTF-16 code units of a string. -/
def units (s : String) : List ℕ :=
  s.toList.flatMap fun c =>
    if c.toNat < 0x10000 then [c.toNat]
    else [0xd800 + (c.toNat - 0x10000) / 0x400, 0xdc00 + (c.toNat - 0x10000) % 0x400]

/-- The decimal digits of a number, with zeros before them up to a width. -/
def padStart (width n : ℕ) : List Char :=
  List.replicate (width - (Nat.toDigits 10 n).length) '0' ++ Nat.toDigits 10 n

/-- A year as a time of the years 0 to 9999 begins with it, and as any other time does. -/
def isoYear (y : ℤ) : List Char :=
  if 0 ≤ y ∧ y ≤ 9999 then padStart 4 y.toNat
  else (if y < 0 then '-' else '+') :: padStart 6 y.natAbs

/-- `new Date(t).toISOString()`. The calendar is counted in years that begin in March, so that
the day a leap year has more is the last one. -/
def toISOString (t : ℤ) : String :=
  let days := t / 86400000 + 719468
  let ms := (t % 86400000).toNat
  let era := days / 146097
  let dayOfEra := days % 146097
  let yearOfEra := (dayOfEra - dayOfEra / 1460 + dayOfEra / 36524 - dayOfEra / 146096) / 365
  let dayOfYear := dayOfEra - (365 * yearOfEra + yearOfEra / 4 - yearOfEra / 100)
  let fromMarch := (5 * dayOfYear + 2) / 153
  let day := (dayOfYear - (153 * fromMarch + 2) / 5 + 1).toNat
  let month := (if fromMarch < 10 then fromMarch + 3 else fromMarch - 9).toNat
  let year := yearOfEra + era * 400 + if month ≤ 2 then 1 else 0
  String.ofList (isoYear year ++ '-' :: padStart 2 month ++ '-' :: padStart 2 day ++
    'T' :: padStart 2 (ms / 3600000) ++ ':' :: padStart 2 (ms / 60000 % 60) ++
    ':' :: padStart 2 (ms / 1000 % 60) ++ '.' :: padStart 3 (ms % 1000) ++ ['Z'])

example : toISOString 1582979696789 = "2020-02-29T12:34:56.789Z" := by decide +kernel

/-- The number of the first day of a year, counted from the first day of 1970. -/
def dayFromYear (y : ℤ) : ℤ :=
  365 * (y - 1970) + (y - 1969) / 4 - (y - 1901) / 100 + (y - 1601) / 400

/-- The days of a year before its `month`, where January is the month 0. -/
def dayFromMonth (y : ℤ) (month : ℕ) : ℤ :=
  let leapDay := if 2 ≤ month ∧ y % 4 = 0 ∧ (y % 100 ≠ 0 ∨ y % 400 = 0) then 1 else 0
  [0, 31, 59, 90, 120, 151, 181, 212, 243, 273, 304, 334].getD month 0 + leapDay

/-- `Date.UTC(year, month, day, hour, minute)`. A day that the month does not have is one of the
months around it, and a year below 100 is one of the twentieth century. -/
def dateUTC (year month day : ℤ) (hour minute : ℤ) : ℤ :=
  let year := if 0 ≤ year ∧ year ≤ 99 then 1900 + year else year
  let year := year + month / 12
  let days := dayFromYear year + dayFromMonth year (month % 12).toNat + day - 1
  days * 86400000 + hour * 3600000 + minute * 60000

example : toISOString (dateUTC 2024 1 30 9 30) = "2024-03-01T09:30:00.000Z" := by decide +kernel

/-- A number does not begin with a point. -/
theorem padStart_head {width n : ℕ} {s : List Char} :
  (padStart width n ++ s).head? ≠ some '.'
  := by
  intro h
  have hne : padStart width n ≠ [] := by simp [padStart, Nat.toDigits_ne_nil]
  rw [List.head?_append_of_ne_nil _ hne] at h
  rcases List.mem_append.mp (List.mem_of_mem_head? h) with hzero | hdigit
  · cases List.eq_of_mem_replicate hzero
  · have hd : '.'.isDigit := Nat.isDigit_of_mem_toDigits (by decide) (by decide) hdigit
    cases hd

/-- A time does not begin with a point. -/
theorem toISOString_head (t : ℤ) :
  (toISOString t).toList.head? ≠ some '.'
  := by
  simp only [toISOString, String.toList_ofList, isoYear, List.append_assoc, List.cons_append]
  split_ifs
  all_goals first | apply padStart_head | simp

/-- `ss.toSorted()`: strings are compared by their code units. -/
def toSorted (ss : List String) : List String :=
  ss.mergeSort fun s t => decide (units s ≤ units t)

end Ecma
