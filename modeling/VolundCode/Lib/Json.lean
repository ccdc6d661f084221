import VolundCode.Lib.Decimal

/-!
# JSON

JSON values, the text `JSON.stringify` writes for them, and the reader `JSON.parse`. Strings
are strings of Unicode scalar values. An object is the list of its members in the order in
which ECMAScript enumerates them.

What is written is read back (`parse_stringify`).
-/

/-- A JSON value. -/
inductive Json where
  | null
  | bool (b : Bool)
  | num (d : Decimal)
  | str (s : String)
  | arr (xs : List Json)
  | obj (ms : List (String × Json))

namespace Json

open List

/-! ### Objects -/

/-- The array index a key stands for, if it stands for one. -/
def arrayIndex (k : String) : Option ℕ :=
  let n := Nat.ofDigitChars 10 k.toList 0
  if k.toList = Nat.toDigits 10 n ∧ n < 2 ^ 32 - 1 then some n else none

/-- Whether a new key `k` stands before the key `l` in the enumeration order: array indices
stand before other keys in ascending order, and other keys stand in the order of their
creation. -/
def precedes (k l : String) : Bool :=
  match arrayIndex k, arrayIndex l with
  | some m, some n => decide (m < n)
  | some _, none => true
  | none, _ => false

/-- The members after `key` is given the value `v`. -/
def setMember (ms : List (String × Json)) (key : String) (v : Json) : List (String × Json) :=
  match ms with
  | [] => [(key, v)]
  | (k, w) :: ms =>
    if k = key then (k, v) :: ms
    else if precedes key k && !(ms.any fun m => m.1 = key) then (key, v) :: (k, w) :: ms
    else (k, w) :: setMember ms key v

/-- The value of a member. -/
def member (ms : List (String × Json)) (key : String) : Option Json :=
  (ms.find? fun m => m.1 = key).map Prod.snd

/-- A member that may not be there. -/
def optional (key : String) (v : Option Json) : List (String × Json) :=
  v.toList.map fun v => (key, v)

variable {key : String}

theorem member_nil :
  member [] key = none
  := rfl

variable {k : String} {v : Json} {ms : List (String × Json)}

theorem member_cons :
  member ((k, v) :: ms) key = if k = key then some v else member ms key
  := by
  rw [member, List.find?_cons]
  by_cases h : k = key
  · simp [h]
  · simp [h, member]

theorem member_append {ns : List (String × Json)} :
  member (ms ++ ns) key = (member ms key).or (member ns key)
  := by
  rw [member, List.find?_append, member, member]
  cases ms.find? fun m => m.1 = key with
  | none | some m => rfl

theorem member_optional {v : Option Json} :
  member (optional k v) key = if k = key then v else none
  := by
  cases v with
  | none | some v => simp [optional, member]

/-! ### Writing -/

/-- A lower case hexadecimal digit. -/
def hexDigit (n : ℕ) : Char :=
  Nat.digitChar (n % 16)

/-- Four hexadecimal digits. -/
def hex4 (n : ℕ) : List Char :=
  [hexDigit (n / 4096), hexDigit (n / 256), hexDigit (n / 16), hexDigit n]

/-- How a character is written in a string. -/
def quoteChar (c : Char) : List Char :=
  if c = '"' then ['\\', '"']
  else if c = '\\' then ['\\', '\\']
  else if c = '\x08' then ['\\', 'b']
  else if c = '\x0c' then ['\\', 'f']
  else if c = '\n' then ['\\', 'n']
  else if c = '\r' then ['\\', 'r']
  else if c = '\t' then ['\\', 't']
  else if c.toNat < 0x20 then '\\' :: 'u' :: hex4 c.toNat
  else [c]

/-- The text of a string. -/
def quote (s : String) : List Char :=
  '"' :: (s.toList.flatMap quoteChar ++ ['"'])

mutual

/-- The text of a value. -/
def stringify : Json → List Char
  | null => ['n', 'u', 'l', 'l']
  | bool true => ['t', 'r', 'u', 'e']
  | bool false => ['f', 'a', 'l', 's', 'e']
  | num d => d.print
  | str s => quote s
  | arr [] => ['[', ']']
  | arr (x :: xs) => '[' :: (stringify x ++ stringifyElements xs)
  | obj [] => ['\x7b', '\x7d']
  | obj ((k, v) :: ms) => '\x7b' :: (quote k ++ ':' :: (stringify v ++ stringifyMembers ms))

/-- The text of the further elements of an array and its end. -/
def stringifyElements : List Json → List Char
  | [] => [']']
  | x :: xs => ',' :: (stringify x ++ stringifyElements xs)

/-- The text of the further members of an object and its end. -/
def stringifyMembers : List (String × Json) → List Char
  | [] => ['\x7d']
  | (k, v) :: ms => ',' :: (quote k ++ ':' :: (stringify v ++ stringifyMembers ms))

end

/-! ### Reading -/

/-- White space between tokens. -/
def isWs (c : Char) : Bool :=
  c = ' ' || c = '\t' || c = '\n' || c = '\r'

/-- The text after white space. -/
def skipWs (s : List Char) : List Char :=
  s.dropWhile isWs

/-- The value of a hexadecimal digit. -/
def hexValue (c : Char) : Option ℕ :=
  if c.isDigit then some (c.toNat - '0'.toNat)
  else if 'a' ≤ c ∧ c ≤ 'f' then some (c.toNat - 'a'.toNat + 10)
  else if 'A' ≤ c ∧ c ≤ 'F' then some (c.toNat - 'A'.toNat + 10)
  else none

/-- The value of four hexadecimal digits. -/
def hexValue4 (a b c d : Char) : Option ℕ :=
  match hexValue a, hexValue b, hexValue c, hexValue d with
  | some a, some b, some c, some d => some (((a * 16 + b) * 16 + c) * 16 + d)
  | _, _, _, _ => none

/-- The character of a code unit given by an escape, if it is one half of no pair. -/
def parseUnit (n : ℕ) (s : List Char) : Option (Char × List Char) :=
  if n.isValidChar then some (Char.ofNat n, s)
  else
    match s with
    | '\\' :: 'u' :: a :: b :: c :: d :: t =>
      match hexValue4 a b c d with
      | none => none
      | some m =>
        if 0xd800 ≤ n ∧ n < 0xdc00 ∧ 0xdc00 ≤ m ∧ m < 0xe000 then
          some (Char.ofNat (0x10000 + (n - 0xd800) * 0x400 + (m - 0xdc00)), t)
        else none
    | _ => none

/-- The character of an escape. An escape of an unpaired surrogate, for which no scalar value
stands, is not read. -/
def parseEscape : List Char → Option (Char × List Char)
  | '"' :: s => some ('"', s)
  | '\\' :: s => some ('\\', s)
  | '/' :: s => some ('/', s)
  | 'b' :: s => some ('\x08', s)
  | 'f' :: s => some ('\x0c', s)
  | 'n' :: s => some ('\n', s)
  | 'r' :: s => some ('\r', s)
  | 't' :: s => some ('\t', s)
  | 'u' :: a :: b :: c :: d :: s =>
    match hexValue4 a b c d with
    | none => none
    | some n => parseUnit n s
  | _ => none

/-- The characters of a string up to its closing quote. -/
def parseChars : ℕ → List Char → Option (List Char × List Char)
  | 0, _ => none
  | n + 1, s =>
    match s with
    | [] => none
    | c :: s =>
      if c = '"' then some ([], s)
      else if c = '\\' then
        match parseEscape s with
        | none => none
        | some (c, s) => (parseChars n s).map fun (cs, s) => (c :: cs, s)
      else if c.toNat < 0x20 then none
      else (parseChars n s).map fun (cs, s) => (c :: cs, s)

/-- The string after its opening quote. -/
def parseString (s : List Char) : Option (String × List Char) :=
  (parseChars (s.length + 1) s).map fun (cs, s) => (String.ofList cs, s)

mutual

/-- The value at the start of a text, and the text after it. The first argument bounds the
number of calls. -/
def parseValue : ℕ → List Char → Option (Json × List Char)
  | 0, _ => none
  | n + 1, s =>
    match skipWs s with
    | '"' :: s => (parseString s).map fun (cs, s) => (str cs, s)
    | '\x7b' :: s =>
      match skipWs s with
      | '\x7d' :: s => some (obj [], s)
      | s => parseMembers n [] s
    | '[' :: s =>
      match skipWs s with
      | ']' :: s => some (arr [], s)
      | s => parseElements n [] s
    | 't' :: 'r' :: 'u' :: 'e' :: s => some (bool true, s)
    | 'f' :: 'a' :: 'l' :: 's' :: 'e' :: s => some (bool false, s)
    | 'n' :: 'u' :: 'l' :: 'l' :: s => some (null, s)
    | s => (Decimal.scan s).map fun (d, s) => (num d, s)

/-- The elements of an array after those read so far. -/
def parseElements : ℕ → List Json → List Char → Option (Json × List Char)
  | 0, _, _ => none
  | n + 1, xs, s =>
    match parseValue n s with
    | none => none
    | some (x, s) =>
      match skipWs s with
      | ',' :: s => parseElements n (xs ++ [x]) s
      | ']' :: s => some (arr (xs ++ [x]), s)
      | _ => none

/-- The members of an object after those read so far. -/
def parseMembers : ℕ → List (String × Json) → List Char → Option (Json × List Char)
  | 0, _, _ => none
  | n + 1, ms, s =>
    match skipWs s with
    | '"' :: s =>
      match parseString s with
      | none => none
      | some (k, s) =>
        match skipWs s with
        | ':' :: s =>
          match parseValue n s with
          | none => none
          | some (v, s) =>
            match skipWs s with
            | ',' :: s => parseMembers n (setMember ms k v) s
            | '\x7d' :: s => some (obj (setMember ms k v), s)
            | _ => none
        | _ => none
    | _ => none

end

/-- The value a text stands for. -/
def parse (s : List Char) : Option Json :=
  match parseValue (2 * s.length + 1) s with
  | none => none
  | some (v, s) => if skipWs s = [] then some v else none

/-! ### Objects whose members stand in enumeration order -/

/-- The members of an object that is given these members in turn. -/
def assemble (ms : List (String × Json)) : List (String × Json) :=
  ms.foldl (fun ms m => setMember ms m.1 m.2) []

mutual

/-- In every object of the value the keys are distinct and stand in enumeration order. -/
def Ordered : Json → Prop
  | null | bool _ | num _ | str _ => True
  | arr xs => OrderedElements xs
  | obj ms => assemble ms = ms ∧ OrderedMembers ms

/-- `Ordered` of every element. -/
def OrderedElements : List Json → Prop
  | [] => True
  | x :: xs => Ordered x ∧ OrderedElements xs

/-- `Ordered` of every member. -/
def OrderedMembers : List (String × Json) → Prop
  | [] => True
  | (_, v) :: ms => Ordered v ∧ OrderedMembers ms

end

/-- A new key that is no array index becomes the last one. -/
theorem setMember_of_name
    (hk : arrayIndex k = none) (hnew : k ∉ ms.map Prod.fst) :
  setMember ms k v = ms ++ [(k, v)]
  := by
  induction ms with
  | nil => rfl
  | cons m ms ih =>
    simp only [map_cons, mem_cons, not_or] at hnew
    rw [setMember, if_neg (Ne.symm hnew.1), if_neg, ih hnew.2, cons_append]
    simp [precedes, hk]

/-- Members with distinct keys that are no array indices keep their order. -/
theorem assemble_of_names (hnodup : (ms.map Prod.fst).Nodup)
    (hnames : ∀ k ∈ ms.map Prod.fst, arrayIndex k = none) :
  assemble ms = ms
  := by
  have hfold : ∀ (ms acc : List (String × Json)), ((acc ++ ms).map Prod.fst).Nodup →
      (∀ k ∈ ms.map Prod.fst, arrayIndex k = none) →
      ms.foldl (fun ms m => setMember ms m.1 m.2) acc = acc ++ ms := by
    intro ms
    induction ms with
    | nil => simp
    | cons m ms ih =>
    intro acc hnodup hnames
    have hm : m.1 ∉ acc.map Prod.fst := by
      rw [map_append, map_cons, nodup_append] at hnodup
      intro hmem
      apply hnodup.2.2 _ hmem _ mem_cons_self rfl
    rw [foldl_cons, setMember_of_name (hnames _ (by simp)) hm, ih]
    · simp
    · simpa using hnodup
    · intro k hk
      apply hnames k (mem_cons_of_mem _ hk)
  apply hfold ms [] _ hnames
  simpa using hnodup

/-! ### Strings are read back -/

theorem hexValue_hexDigit (n : ℕ) :
  hexValue (hexDigit n) = some (n % 16)
  := by
  have hall : ∀ k < 16, hexValue (Nat.digitChar k) = some k := by decide
  apply hall _ (Nat.mod_lt _ (by decide))

variable {n : ℕ}

/-- Four digits give back a number below `2 ^ 16`. -/
theorem hexValue4_hex4 (hn : n < 65536) :
  hexValue4 (hexDigit (n / 4096)) (hexDigit (n / 256)) (hexDigit (n / 16)) (hexDigit n) = some n
  := by
  simp only [hexValue4, hexValue_hexDigit, Option.some.injEq]
  omega

/-- A character as it is written in a string is read back in one step. -/
theorem parseChars_quoteChar (n : ℕ) (c : Char) (s : List Char) :
  parseChars (n + 1) (quoteChar c ++ s) = (parseChars n s).map fun (cs, s) => (c :: cs, s)
  := by
  rw [quoteChar]
  split_ifs with h₁ h₂ h₃ h₄ h₅ h₆ h₇ h₈
  · subst h₁; rfl
  · subst h₂; rfl
  · subst h₃; rfl
  · subst h₄; rfl
  · subst h₅; rfl
  · subst h₆; rfl
  · subst h₇; rfl
  · have hvalid : c.toNat.isValidChar := c.valid
    have hescape : parseEscape ('u' :: (hex4 c.toNat ++ s)) = some (c, s) := by
      simp only [hex4, cons_append, nil_append, parseEscape,
        hexValue4_hex4 (show c.toNat < 65536 by omega), parseUnit, if_pos hvalid,
        Char.ofNat_toNat]
    simp only [cons_append, parseChars, hescape]
    rw [if_neg (by decide), if_pos True.intro]
  · rw [singleton_append, parseChars]
    simp only [if_neg h₁, if_neg h₂, if_neg h₈]

/-- The characters of a string are read back. -/
theorem parseChars_quote {cs : List Char} (s : List Char) (hn : cs.length < n) :
  parseChars n (cs.flatMap quoteChar ++ '"' :: s) = some (cs, s)
  := by
  induction cs generalizing n with
  | nil =>
    obtain ⟨n, rfl⟩ : ∃ l, n = l + 1 := ⟨n - 1, by simp at hn; omega⟩
    rfl
  | cons c cs ih =>
  obtain ⟨n, rfl⟩ : ∃ l, n = l + 1 := ⟨n - 1, by simp at hn; omega⟩
  rw [length_cons] at hn
  rw [flatMap_cons, append_assoc, parseChars_quoteChar, ih (by omega)]
  rfl

/-- A character is written as at least one. -/
theorem length_quoteChar_pos (c : Char) :
  0 < (quoteChar c).length
  := by
  rw [quoteChar]
  split_ifs <;> simp

/-- A string is read back. -/
theorem parseString_quote (k : String) (s : List Char) :
  parseString (k.toList.flatMap quoteChar ++ '"' :: s) = some (k, s)
  := by
  have hlen : ∀ cs : List Char, cs.length ≤ (cs.flatMap quoteChar).length := by
    intro cs
    induction cs with
    | nil => simp
    | cons c cs ih =>
      have hpos := length_quoteChar_pos c
      rw [flatMap_cons, length_append, length_cons]
      omega
  rw [parseString, parseChars_quote]
  · simp
  · have h := hlen k.toList
    rw [length_append, length_cons]
    omega

/-! ### Values are read back -/

variable {c : Char} {s : List Char}

theorem skipWs_of_not_isWs (hc : isWs c = false) :
  skipWs (c :: s) = c :: s
  := by
  rw [skipWs, dropWhile_cons_of_neg (by simp [hc])]

/-- The text of a number starts with a digit or a minus. -/
theorem print_head (d : Decimal) :
  ∃ c s, d.print = c :: s ∧ (c.isDigit = true ∨ c = '-')
  := by
  obtain ⟨c, cs, hc⟩ := exists_cons_of_ne_nil (Decimal.digits_ne_nil d.mantissa.natAbs)
  have hdigit : c.isDigit = true := by
    apply Decimal.digits_isDigit (n := d.mantissa.natAbs)
    rw [hc]
    apply mem_cons_self
  rw [Decimal.print]
  split
  · exact ⟨_, _, rfl, Or.inr rfl⟩
  simp only [Decimal.printDigits, hc]
  split_ifs with h₁ h₂ h₃
  · exact ⟨_, _, rfl, Or.inl hdigit⟩
  · obtain ⟨n, hn⟩ : ∃ n, (((c :: cs).length : ℤ) + d.exponent).toNat = n + 1 :=
      ⟨(((c :: cs).length : ℤ) + d.exponent).toNat - 1, by omega⟩
    rw [hn, take_succ_cons]
    exact ⟨_, _, rfl, Or.inl hdigit⟩
  · exact ⟨_, _, rfl, Or.inl rfl⟩
  all_goals exact ⟨_, _, rfl, Or.inl hdigit⟩

/-- A character that a number starts with is none of the other tokens. -/
theorem ne_of_isDigit {d : Char} (hc : c.isDigit = true ∨ c = '-') (hd : d.isDigit = false)
    (hminus : d ≠ '-') :
  c ≠ d
  := by
  rintro rfl
  rcases hc with hc | hc
  · rw [hc] at hd
    cases hd
  · apply hminus hc

/-- Where a digit or a minus stands, a number is read. -/
theorem parseValue_number
    (hc : c.isDigit = true ∨ c = '-') :
  parseValue (n + 1) (c :: s) = (Decimal.scan (c :: s)).map fun (d, s) => (num d, s)
  := by
  have hne : ∀ d : Char, d.isDigit = false → d ≠ '-' → c ≠ d := fun d => ne_of_isDigit hc
  have hws : isWs c = false := by
    simp only [isWs, Bool.or_eq_false_iff, decide_eq_false_iff_not]
    exact ⟨⟨⟨hne _ rfl (by decide), hne _ rfl (by decide)⟩, hne _ rfl (by decide)⟩,
      hne _ rfl (by decide)⟩
  rw [parseValue, skipWs_of_not_isWs hws]
  split
  · next h => apply absurd (List.cons.inj h).1 (hne _ rfl (by decide))
  · next h => apply absurd (List.cons.inj h).1 (hne _ rfl (by decide))
  · next h => apply absurd (List.cons.inj h).1 (hne _ rfl (by decide))
  · next h => apply absurd (List.cons.inj h).1 (hne _ rfl (by decide))
  · next h => apply absurd (List.cons.inj h).1 (hne _ rfl (by decide))
  · next h => apply absurd (List.cons.inj h).1 (hne _ rfl (by decide))
  · rfl

/-- The text of a value starts with a character that is neither white space nor closes an
array or an object. -/
theorem stringify_head (v : Json) :
  ∃ c s, stringify v = c :: s ∧ isWs c = false ∧ c ≠ ']' ∧ c ≠ '\x7d'
  := by
  cases v with
  | null => exact ⟨_, _, by rw [stringify], by decide, by decide, by decide⟩
  | bool b =>
    cases b with
    | true | false => exact ⟨_, _, by rw [stringify], by decide, by decide, by decide⟩
  | num d =>
    obtain ⟨c, s, hs, hc⟩ := print_head d
    refine ⟨c, s, by rw [stringify, hs], ?_, ne_of_isDigit hc rfl (by decide),
      ne_of_isDigit hc rfl (by decide)⟩
    simp only [isWs, Bool.or_eq_false_iff, decide_eq_false_iff_not]
    exact ⟨⟨⟨ne_of_isDigit hc rfl (by decide), ne_of_isDigit hc rfl (by decide)⟩,
      ne_of_isDigit hc rfl (by decide)⟩, ne_of_isDigit hc rfl (by decide)⟩
  | str s => exact ⟨_, _, by rw [stringify, quote], by decide, by decide, by decide⟩
  | arr xs =>
    cases xs with
    | nil | cons x xs => exact ⟨_, _, by rw [stringify], by decide, by decide, by decide⟩
  | obj ms =>
    cases ms with
    | nil | cons m ms => exact ⟨_, _, by rw [stringify], by decide, by decide, by decide⟩

/-- Before a comma or the end of an array or an object a number ends. -/
theorem ends_of_delimiter (hc : c = ',' ∨ c = ']' ∨ c = '\x7d') :
  Decimal.Ends (c :: s)
  := by
  intro d hd
  obtain rfl : c = d := by simpa using hd
  rcases hc with rfl | rfl | rfl <;> decide

/-- The text of the further elements starts with a delimiter. -/
theorem ends_stringifyElements (xs : List Json) (s : List Char) :
  Decimal.Ends (stringifyElements xs ++ s)
  := by
  cases xs with
  | nil =>
    rw [stringifyElements]
    apply ends_of_delimiter (Or.inr (Or.inl rfl))
  | cons x xs =>
    rw [stringifyElements]
    apply ends_of_delimiter (Or.inl rfl)

/-- The text of the further members starts with a delimiter. -/
theorem ends_stringifyMembers (ms : List (String × Json)) (s : List Char) :
  Decimal.Ends (stringifyMembers ms ++ s)
  := by
  cases ms with
  | nil =>
    rw [stringifyMembers]
    apply ends_of_delimiter (Or.inr (Or.inr rfl))
  | cons m ms =>
    rw [stringifyMembers]
    apply ends_of_delimiter (Or.inl rfl)

/-- `v` is read from its text before any text with which no number goes on. -/
def Reads (v : Json) : Prop :=
  ∀ (n : ℕ) (s : List Char), 2 * (stringify v).length + 1 ≤ n → Decimal.Ends s →
    parseValue n (stringify v ++ s) = some (v, s)

/-- A nonempty array is read by reading its elements. -/
theorem parseValue_arr {x : Json} (xs : List Json) (s : List Char) :
  parseValue (n + 1) (stringify (arr (x :: xs)) ++ s) =
    parseElements n [] (stringify x ++ (stringifyElements xs ++ s))
  := by
  obtain ⟨c, t, hc, hws, hclose, -⟩ := stringify_head x
  rw [stringify, cons_append, append_assoc, parseValue,
    skipWs_of_not_isWs (by decide), hc, cons_append]
  simp only [skipWs_of_not_isWs hws]
  split
  · next h => apply absurd (List.cons.inj h).1 hclose
  · rfl

/-- A nonempty object is read by reading its members. -/
theorem parseValue_obj (ms : List (String × Json)) (s : List Char) :
  parseValue (n + 1) (stringify (obj ((k, v) :: ms)) ++ s) =
    parseMembers n [] (quote k ++ ':' :: (stringify v ++ (stringifyMembers ms ++ s)))
  := by
  rw [stringify, cons_append, append_assoc, cons_append, append_assoc,
    parseValue, skipWs_of_not_isWs (by decide), quote, cons_append]
  simp only [skipWs_of_not_isWs (show isWs '"' = false by decide)]
  rfl

/-- A member is read, and then what comes after it. -/
theorem parseMembers_member {acc : List (String × Json)}
    (hv : parseValue n (stringify v ++ s) = some (v, s)) :
  parseMembers (n + 1) acc (quote k ++ ':' :: (stringify v ++ s)) =
    match skipWs s with
    | ',' :: s => parseMembers n (setMember acc k v) s
    | '\x7d' :: s => some (obj (setMember acc k v), s)
    | _ => none
  := by
  rw [parseMembers, quote, cons_append, skipWs_of_not_isWs (by decide),
    append_assoc, singleton_append]
  simp only [parseString_quote, skipWs_of_not_isWs (show isWs ':' = false by decide), hv]

mutual

/-- A value whose objects are ordered is read back. -/
theorem reads_of_ordered : ∀ v : Json, Ordered v → Reads v
  | null, _ | bool true, _ | bool false, _ => by
      intro n s hn _
      obtain ⟨n, rfl⟩ : ∃ l, n = l + 1 := ⟨n - 1, by omega⟩
      rw [stringify]
      rfl
  | num d, _ => by
      intro n s hn hs
      obtain ⟨n, rfl⟩ : ∃ l, n = l + 1 := ⟨n - 1, by omega⟩
      obtain ⟨c, t, hd, hc⟩ := print_head d
      have hscan := Decimal.scan_print d hs
      rw [hd, cons_append] at hscan
      rw [stringify, hd, cons_append, parseValue_number hc, hscan]
      rfl
  | str k, _ => by
      intro n s hn _
      obtain ⟨n, rfl⟩ : ∃ l, n = l + 1 := ⟨n - 1, by omega⟩
      rw [stringify, quote, cons_append, parseValue, skipWs_of_not_isWs (by decide),
        append_assoc, singleton_append]
      simp only [parseString_quote, Option.map_some]
  | arr [], _ => by
      intro n s hn _
      obtain ⟨n, rfl⟩ : ∃ l, n = l + 1 := ⟨n - 1, by omega⟩
      rw [stringify]
      rfl
  | arr (x :: xs), h => by
      intro n s hn _
      obtain ⟨n, rfl⟩ : ∃ l, n = l + 1 := ⟨n - 1, by omega⟩
      rw [stringify, length_cons, length_append] at hn
      rw [Ordered, OrderedElements] at h
      rw [parseValue_arr, parseElements_of_ordered xs h.2 _ _ (reads_of_ordered x h.1)]
      · rfl
      · omega
  | obj [], _ => by
      intro n s hn _
      obtain ⟨n, rfl⟩ : ∃ l, n = l + 1 := ⟨n - 1, by omega⟩
      rw [stringify]
      rfl
  | obj ((k, v) :: ms), h => by
      intro n s hn _
      obtain ⟨n, rfl⟩ : ∃ l, n = l + 1 := ⟨n - 1, by omega⟩
      rw [stringify, length_cons, length_append, length_cons, length_append] at hn
      rw [Ordered, OrderedMembers] at h
      rw [parseValue_obj, parseMembers_of_ordered ms h.2.2 _ _ _ (reads_of_ordered v h.2.1)]
      · have hassemble := h.1
        rw [assemble, foldl_cons] at hassemble
        rw [hassemble]
      · rw [length_append, length_cons, length_append]
        omega

/-- The further elements of an array are read back. -/
theorem parseElements_of_ordered : ∀ xs : List Json, OrderedElements xs →
    ∀ (n : ℕ) (acc : List Json) {x : Json} {s : List Char}, Reads x →
      2 * ((stringify x).length + (stringifyElements xs).length) + 2 ≤ n →
      parseElements n acc (stringify x ++ (stringifyElements xs ++ s)) =
        some (arr (acc ++ x :: xs), s)
  | [], _ => by
      intro n acc x s hx hn
      obtain ⟨n, rfl⟩ : ∃ l, n = l + 1 := ⟨n - 1, by omega⟩
      rw [parseElements, hx n _ (by omega) (ends_stringifyElements _ _), stringifyElements]
      rfl
  | y :: ys, h => by
      intro n acc x s hx hn
      obtain ⟨n, rfl⟩ : ∃ l, n = l + 1 := ⟨n - 1, by omega⟩
      rw [OrderedElements] at h
      rw [parseElements, hx n _ (by omega) (ends_stringifyElements _ _), stringifyElements,
        cons_append, append_assoc]
      rw [stringifyElements, length_cons, length_append] at hn
      simp only [skipWs_of_not_isWs (show isWs ',' = false by decide)]
      rw [parseElements_of_ordered ys h.2 n _ (reads_of_ordered y h.1) (by omega)]
      simp

/-- The further members of an object are read back. -/
theorem parseMembers_of_ordered : ∀ ms : List (String × Json), OrderedMembers ms →
    ∀ (n : ℕ) (acc : List (String × Json)) (k : String) {v : Json} {s : List Char}, Reads v →
      2 * (quote k ++ ':' :: (stringify v ++ stringifyMembers ms)).length + 2 ≤ n →
      parseMembers n acc (quote k ++ ':' :: (stringify v ++ (stringifyMembers ms ++ s))) =
        some (obj (ms.foldl (fun ms m => setMember ms m.1 m.2) (setMember acc k v)), s)
  | [], _ => by
      intro n acc k v s hv hn
      obtain ⟨n, rfl⟩ : ∃ l, n = l + 1 := ⟨n - 1, by omega⟩
      rw [length_append, length_cons, length_append] at hn
      rw [parseMembers_member (hv n _ (by omega) (ends_stringifyMembers _ _)), stringifyMembers]
      rfl
  | (l, w) :: ms, h => by
      intro n acc k v s hv hn
      obtain ⟨n, rfl⟩ : ∃ l, n = l + 1 := ⟨n - 1, by omega⟩
      rw [length_append, length_cons, length_append] at hn
      rw [OrderedMembers] at h
      rw [parseMembers_member (hv n _ (by omega) (ends_stringifyMembers _ _)),
        stringifyMembers, cons_append]
      rw [stringifyMembers, length_cons] at hn
      simp only [skipWs_of_not_isWs (show isWs ',' = false by decide)]
      rw [append_assoc, cons_append, append_assoc,
        parseMembers_of_ordered ms h.2 n _ l (reads_of_ordered w h.1) (by omega)]
      rfl

end

/-- What is written for a value whose objects are ordered is read back. -/
theorem parse_stringify (hv : Ordered v) :
  parse (stringify v) = some v
  := by
  have h := reads_of_ordered v hv (2 * (stringify v).length + 1) [] le_rfl Decimal.Ends.nil
  rw [append_nil] at h
  rw [parse, h]
  rfl

/-- Values whose objects are ordered are told apart by what is written for them. -/
theorem eq_of_stringify_eq {w : Json} (hv : Ordered v) (hw : Ordered w)
    (h : stringify v = stringify w) :
  v = w
  := by
  have hread := parse_stringify hv
  rw [h, parse_stringify hw] at hread
  exact (Option.some.inj hread).symm

/-- An array is ordered if its elements are. -/
theorem orderedElements_iff {xs : List Json} :
  OrderedElements xs ↔ ∀ x ∈ xs, Ordered x
  := by
  induction xs with
  | nil => simp [OrderedElements]
  | cons x xs ih => simp [OrderedElements, ih]

/-- The members of an object are ordered if their values are. -/
theorem orderedMembers_iff :
  OrderedMembers ms ↔ ∀ m ∈ ms, Ordered m.2
  := by
  induction ms with
  | nil => simp [OrderedMembers]
  | cons m ms ih => simp [OrderedMembers, ih]

/-! ### The head of a value -/

/-- A number starts with a digit or a minus. -/
theorem scan_head {d : Decimal} {t : List Char} (h : Decimal.scan s = some (d, t)) :
  ∃ c u, s = c :: u ∧ (c.isDigit ∨ c = '-')
  := by
  cases s with
  | nil => simp [Decimal.scan, Decimal.scanUnsigned, Decimal.scanInteger] at h
  | cons c s =>
  use c, s, rfl
  by_contra hc
  simp only [not_or, Bool.not_eq_true] at hc
  rw [Decimal.scan.eq_def] at h
  split at h
  · next heq => apply hc.2 (List.cons.inj heq).1
  · simp [Decimal.scanUnsigned, Decimal.scanInteger, hc.1] at h

/-- White space before a value is skipped. -/
theorem parseValue_skipWs {t : List Char} (h : skipWs s = c :: t) :
  parseValue n s = parseValue n (c :: t)
  := by
  have hc : isWs c = false := by
    have hhead := List.head?_dropWhile_not isWs s
    rw [← skipWs.eq_def, h] at hhead
    simpa using hhead
  cases n with
  | zero => rfl
  | succ n => rw [parseValue, parseValue, skipWs_of_not_isWs hc, h]

/-! ### No control characters -/

/-- Checked characters are no control characters. -/
theorem printable_of_all {cs : List Char} (h : (cs.all fun c => decide (0x20 ≤ c.toNat)) = true) :
  ∀ c ∈ cs, 0x20 ≤ c.toNat
  := fun c hc => of_decide_eq_true (all_eq_true.mp h c hc)

/-- What is written for a character has no control characters. -/
theorem quoteChar_printable (d : Char) :
  ∀ c ∈ quoteChar d, 0x20 ≤ c.toNat
  := by
  have hdigit : ∀ n, 0x20 ≤ (hexDigit n).toNat := by
    have hall : ∀ k < 16, 0x20 ≤ (Nat.digitChar k).toNat := by decide
    exact fun n => hall _ (Nat.mod_lt _ (by decide))
  have hslash : 0x20 ≤ '\\'.toNat := by decide
  rw [quoteChar]
  split_ifs with h₁ h₂ h₃ h₄ h₅ h₆ h₇ h₈
  · exact printable_of_all rfl
  · exact printable_of_all rfl
  · exact printable_of_all rfl
  · exact printable_of_all rfl
  · exact printable_of_all rfl
  · exact printable_of_all rfl
  · exact printable_of_all rfl
  · simp only [hex4, forall_mem_cons]
    exact ⟨hslash, by decide, hdigit _, hdigit _, hdigit _, hdigit _, by simp⟩
  · simp only [forall_mem_cons]
    exact ⟨by omega, by simp⟩

/-- What is written for a string has no control characters. -/
theorem quote_printable (s : String) :
  ∀ c ∈ quote s, 0x20 ≤ c.toNat
  := by
  simp only [quote, forall_mem_cons, forall_mem_append, mem_flatMap]
  refine ⟨by decide, ?_, by decide, by simp⟩
  rintro c ⟨d, -, hc⟩
  exact quoteChar_printable d c hc

mutual

/-- What is written for a value has no control characters. -/
theorem stringify_printable : ∀ v : Json, ∀ c ∈ stringify v, 0x20 ≤ c.toNat
  | null | bool true | bool false => printable_of_all rfl
  | num d => by
      rw [stringify]
      exact d.print_printable
  | str s => by
      rw [stringify]
      exact quote_printable s
  | arr [] => printable_of_all rfl
  | arr (x :: xs) => by
      simp only [stringify, forall_mem_cons, forall_mem_append]
      exact ⟨by decide, stringify_printable x, stringifyElements_printable xs⟩
  | obj [] => printable_of_all rfl
  | obj ((k, v) :: ms) => by
      simp only [stringify, forall_mem_cons, forall_mem_append]
      exact ⟨by decide, quote_printable k, by decide, stringify_printable v,
        stringifyMembers_printable ms⟩

theorem stringifyElements_printable : ∀ xs, ∀ c ∈ stringifyElements xs, 0x20 ≤ c.toNat
  | [] => printable_of_all rfl
  | x :: xs => by
      simp only [stringifyElements, forall_mem_cons, forall_mem_append]
      exact ⟨by decide, stringify_printable x, stringifyElements_printable xs⟩

theorem stringifyMembers_printable : ∀ ms, ∀ c ∈ stringifyMembers ms, 0x20 ≤ c.toNat
  | [] => printable_of_all rfl
  | (k, v) :: ms => by
      simp only [stringifyMembers, forall_mem_cons, forall_mem_append]
      exact ⟨by decide, quote_printable k, by decide, stringify_printable v,
        stringifyMembers_printable ms⟩

end

end Json
