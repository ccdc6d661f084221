import VolundCode.Config.Toml
import VolundCode.Lib.JsonOrder

/-!
# Values in configuration files

What is read for a value that was written is the value, but for numbers that are not finite, which
become `null`, and members named `__proto__`, which are lost (`parseTomlValue_tomlValue`).
-/

namespace Config.Toml

open Json List Decimal

mutual

/-- What becomes of a value that is written and read. -/
def reread : Json → Json
  | .num d => if finite d then .num d else .null
  | .arr xs => .arr (rereadElements xs)
  | .obj ms => .obj (rereadMembers ms)
  | v => v

/-- What becomes of elements. -/
def rereadElements : List Json → List Json
  | [] => []
  | x :: xs => reread x :: rereadElements xs

/-- What becomes of members. -/
def rereadMembers : List (String × Json) → List (String × Json)
  | [] => []
  | (k, v) :: ms =>
    if k = "__proto__" then rereadMembers ms else (k, reread v) :: rereadMembers ms

end

/-- The text after a token. -/
def Ends (s : List Char) : Prop :=
  ∀ c ∈ s.head?, endsToken c

theorem ends_nil : Ends [] := by
  intro c hc
  cases hc

variable {c : Char} {s : List Char}

theorem ends_cons (h : endsToken c) :
  Ends (c :: s)
  := by
  intro d hd
  cases hd
  exact h

/-- A list of texts with a separator between them. -/
theorem intercalate_cons {sep a : List Char} {l : List (List Char)} :
  sep.intercalate (a :: l) = a ++ l.flatMap (sep ++ ·)
  := by
  induction l generalizing a with
  | nil => simp [List.intercalate]
  | cons b l ih =>
    rw [flatMap_cons, append_assoc, ← ih]
    simp [List.intercalate]

/-! ### Strings -/

theorem closeBasic_cons (h : c ≠ '\\') :
  closeBasic (c :: s) =
    if c = '"' then some ([], s) else (closeBasic s).map fun (body, s) => (c :: body, s)
  := by
  rw [closeBasic.eq_4]
  · rintro rfl
    exact absurd rfl h
  · rintro _ _ rfl
    exact absurd rfl h

/-- A hexadecimal digit is no quote and no backslash. -/
theorem hexDigit_ne (n : ℕ) :
  hexDigit n ≠ '\\' ∧ hexDigit n ≠ '"'
  := by
  have hall : ∀ k < 16, Nat.digitChar k ≠ '\\' ∧ Nat.digitChar k ≠ '"' := by decide
  exact hall _ (Nat.mod_lt _ (by decide))

/-- What is written for a character does not close a string. -/
theorem closeBasic_quoteChar (c : Char) (s : List Char) :
  closeBasic (quoteChar c ++ s) = (closeBasic s).map fun (body, s) => (quoteChar c ++ body, s)
  := by
  have hpair : ∀ d, closeBasic ('\\' :: d :: s) =
      (closeBasic s).map fun (body, s) => ('\\' :: d :: body, s) := fun d => closeBasic.eq_3 d s
  rw [quoteChar]
  split_ifs with h₁ h₂ h₃ h₄ h₅ h₆ h₇ h₈
  · exact hpair _
  · exact hpair _
  · exact hpair _
  · exact hpair _
  · exact hpair _
  · exact hpair _
  · exact hpair _
  · have hdigit : ∀ n t, closeBasic (hexDigit n :: t) =
        (closeBasic t).map fun (body, t) => (hexDigit n :: body, t) := by
      intro n t
      rw [closeBasic_cons (hexDigit_ne n).1, if_neg (hexDigit_ne n).2]
    simp only [hex4, cons_append, nil_append]
    rw [closeBasic.eq_3, hdigit, hdigit, hdigit, hdigit]
    simp only [Option.map_map]
    rfl
  · rw [singleton_append, closeBasic_cons h₂, if_neg h₁]
    rfl

theorem closeBasic_quote (cs s : List Char) :
  closeBasic (cs.flatMap quoteChar ++ '"' :: s) = some (cs.flatMap quoteChar, s)
  := by
  induction cs with
  | nil => rfl
  | cons c cs ih =>
    rw [flatMap_cons, append_assoc, closeBasic_quoteChar, ih]
    rfl

/-- A string is read back. -/
theorem scanTomlString_quote (k : String) (s : List Char) :
  scanTomlString (quote k ++ s) = some (k, s)
  := by
  have hparse : parse (quote k) = some (.str k) := by
    have h := parse_stringify (v := .str k) True.intro
    rw [stringify] at h
    exact h
  rw [quote] at hparse ⊢
  rw [cons_append, append_assoc, singleton_append, scanTomlString, closeBasic_quote]
  dsimp only
  rw [hparse]

/-! ### Tokens -/

/-- A character of a token that is written. -/
def isTokenChar (c : Char) : Bool :=
  c.isAlphanum || c = '-' || c = '+' || c = '.'

theorem toNat_of_isAlphanum (h : c.isAlphanum) :
  48 ≤ c.toNat ∧ c.toNat ≤ 57 ∨ 65 ≤ c.toNat ∧ c.toNat ≤ 90 ∨ 97 ≤ c.toNat ∧ c.toNat ≤ 122
  := by
  simp only [Char.isAlphanum, Char.isAlpha, Char.isUpper, Char.isLower, Char.isDigit,
    Bool.or_eq_true, Bool.and_eq_true, decide_eq_true_eq] at h
  rcases h with (⟨h₁, h₂⟩ | ⟨h₁, h₂⟩) | ⟨h₁, h₂⟩
  · exact Or.inr (Or.inl ⟨h₁, h₂⟩)
  · exact Or.inr (Or.inr ⟨h₁, h₂⟩)
  · exact Or.inl ⟨h₁, h₂⟩

/-- What a token does not contain. -/
theorem isTokenChar_ne {d : Char} (h : isTokenChar c) (hd : isTokenChar d = false) :
  c ≠ d
  := by
  rintro rfl
  rw [h] at hd
  cases hd

theorem isSpace_of_isTokenChar (h : isTokenChar c) :
  Ecma.isSpace c = false
  := by
  simp only [isTokenChar, Bool.or_eq_true, decide_eq_true_eq] at h
  rcases h with ((halpha | rfl) | rfl) | rfl
  · have hrange := toNat_of_isAlphanum halpha
    simp only [Ecma.isSpace, decide_eq_false_iff_not, mem_cons, not_mem_nil, or_false]
    omega
  all_goals decide

theorem endsToken_of_isTokenChar (h : isTokenChar c) :
  endsToken c = false
  := by
  simp only [endsToken, isSpace_of_isTokenChar h, Bool.false_or, Bool.or_eq_false_iff,
    decide_eq_false_iff_not]
  exact ⟨⟨isTokenChar_ne h (by decide), isTokenChar_ne h (by decide)⟩, isTokenChar_ne h (by decide)⟩

theorem printDigits_tokenChars {ds : List Char} {e : ℤ} (hds : ∀ c ∈ ds, c.isDigit) :
  ∀ c ∈ printDigits ds e, isTokenChar c
  := by
  have hdigit : ∀ c, c.isDigit → isTokenChar c := by
    intro c hc
    simp [isTokenChar, Char.isAlphanum, hc]
  have hdig : ∀ c ∈ ds, isTokenChar c := fun c hc => hdigit c (hds c hc)
  have hzeros : ∀ n, ∀ c ∈ List.replicate n '0', isTokenChar c :=
    fun n c hc => hdigit c (mem_replicate_isDigit hc)
  have hexp : ∀ n, ∀ c ∈ Decimal.digits n, isTokenChar c :=
    fun n c hc => hdigit c (digits_isDigit hc)
  rw [printDigits]
  dsimp only
  split_ifs
  · simp only [forall_mem_append]
    exact ⟨hdig, hzeros _⟩
  · simp only [forall_mem_append, forall_mem_cons]
    exact ⟨fun c hc => hdig c (mem_of_mem_take hc), by decide,
      fun c hc => hdig c (mem_of_mem_drop hc)⟩
  · simp only [forall_mem_append, forall_mem_cons]
    exact ⟨by decide, by decide, hzeros _, hdig⟩
  all_goals
    simp only [forall_mem_append, forall_mem_cons]
    refine ⟨⟨fun c hc => hdig c (mem_of_mem_take hc), ?_⟩, by decide, by decide, hexp _⟩
    split
    · exact forall_mem_nil _
    · simp only [forall_mem_cons]
      refine ⟨by decide, fun c hc => hdig c (mem_of_mem_drop (i := 1) ?_)⟩
      assumption

/-- A number is written with these characters only. -/
theorem print_tokenChars (d : Decimal) :
  ∀ c ∈ d.print, isTokenChar c
  := by
  have h : ∀ c ∈ printDigits (Decimal.digits d.mantissa.natAbs) d.exponent, isTokenChar c :=
    printDigits_tokenChars fun c hc => digits_isDigit hc
  rw [print]
  split_ifs
  · simp only [forall_mem_cons]
    exact ⟨by decide, h⟩
  · exact h

/-- A value that is written as a token. -/
def isToken : Json → Bool
  | .null | .bool _ | .num _ => true
  | _ => false

variable {v : Json}

/-- A token is written as JSON. -/
theorem tomlValue_eq_stringify (h : isToken v) :
  tomlValue v = stringify (reread v)
  := by
  cases v with
  | null | bool b => simp only [tomlValue, reread]
  | num d =>
    rw [tomlValue, reread]
    split_ifs
    · rw [stringify]
    · rfl
  | str | arr | obj => cases h

theorem ordered_reread_token (h : isToken v) :
  Ordered (reread v)
  := by
  cases v with
  | null | bool b => simp only [reread, Ordered]
  | num d =>
    rw [reread]
    split_ifs <;> simp only [Ordered]
  | str | arr | obj => cases h

/-- A token has these characters only. -/
theorem isTokenChar_of_mem (h : isToken v) :
  ∀ c ∈ tomlValue v, isTokenChar c
  := by
  have hchecked : ∀ {cs : List Char}, cs.all isTokenChar → ∀ c ∈ cs, isTokenChar c :=
    fun hcs => all_eq_true.mp hcs
  have hnull : ∀ c ∈ stringify .null, isTokenChar c := by
    rw [stringify]
    exact hchecked (by decide)
  rw [tomlValue_eq_stringify h]
  cases v with
  | null =>
    rw [reread.eq_4 .null nofun nofun nofun]
    exact hnull
  | bool b =>
    rw [reread.eq_4 (.bool b) nofun nofun nofun]
    cases b with
    | true | false =>
      rw [stringify]
      exact hchecked (by decide)
  | num d =>
    rw [reread]
    split_ifs
    · rw [stringify]
      exact print_tokenChars d
    · exact hnull
  | str | arr | obj => cases h

/-! ### Scanning -/

theorem skipTomlSeparators_cons (h : Ecma.isSpace c = false) :
  skipTomlSeparators (c :: s) = c :: s
  := by
  rw [skipTomlSeparators, dropWhile_cons, h]
  rfl

theorem skipTomlSeparators_space (s : List Char) :
  skipTomlSeparators (' ' :: s) = skipTomlSeparators s
  := rfl

theorem takeWhile_token {ts : List Char} (hts : ∀ c ∈ ts, endsToken c = false) (hs : Ends s) :
  (ts ++ s).takeWhile (fun c => !endsToken c) = ts ∧ (ts ++ s).dropWhile (fun c => !endsToken c) = s
  := by
  have hstop : s.takeWhile (fun c => !endsToken c) = [] ∧
      s.dropWhile (fun c => !endsToken c) = s := by
    cases s with
    | nil => exact ⟨rfl, rfl⟩
    | cons c s =>
      have hc := hs c rfl
      simp [hc]
  constructor
  · rw [takeWhile_append_of_pos (by simpa using hts), hstop.1, append_nil]
  · rw [dropWhile_append_of_pos (by simpa using hts), hstop.2]

/-- A digit or a minus begins no string, array or table. -/
theorem numberHead (h : c.isDigit ∨ c = '-') :
  Ecma.isSpace c = false ∧ isWs c = false ∧ c ≠ ']' ∧ c ≠ '\x7d' ∧ c ≠ '"' ∧ c ≠ '\x27' ∧
    c ≠ '[' ∧ c ≠ '\x7b'
  := by
  have hne : ∀ d : Char, d.isDigit = false → d ≠ '-' → c ≠ d := fun d => ne_of_isDigit h
  refine ⟨?_, ?_, hne _ rfl (by decide), hne _ rfl (by decide), hne _ rfl (by decide),
    hne _ rfl (by decide), hne _ rfl (by decide), hne _ rfl (by decide)⟩
  · rcases h with h | rfl
    · exact Ecma.isSpace_of_isDigit h
    · decide
  · simp only [isWs, Bool.or_eq_false_iff, decide_eq_false_iff_not]
    exact ⟨⟨⟨hne _ rfl (by decide), hne _ rfl (by decide)⟩, hne _ rfl (by decide)⟩,
      hne _ rfl (by decide)⟩

/-- The text of a token begins with no white space, and with no quote or bracket. -/
theorem token_head (h : isToken v = true) :
  ∃ c t, tomlValue v = c :: t ∧ Ecma.isSpace c = false ∧ isWs c = false ∧ c ≠ ']' ∧
    c ≠ '\x7d' ∧ c ≠ '"' ∧ c ≠ '\x27' ∧ c ≠ '[' ∧ c ≠ '\x7b'
  := by
  have hnull : ∃ c t, stringify .null = c :: t ∧ Ecma.isSpace c = false ∧ isWs c = false ∧
      c ≠ ']' ∧ c ≠ '\x7d' ∧ c ≠ '"' ∧ c ≠ '\x27' ∧ c ≠ '[' ∧ c ≠ '\x7b' :=
    ⟨'n', _, by rw [stringify], by decide⟩
  rw [tomlValue_eq_stringify h]
  cases v with
  | null =>
    rw [reread.eq_4 .null nofun nofun nofun]
    exact hnull
  | bool b =>
    rw [reread.eq_4 (.bool b) nofun nofun nofun]
    cases b with
    | true => exact ⟨'t', _, by rw [stringify], by decide⟩
    | false => exact ⟨'f', _, by rw [stringify], by decide⟩
  | num d =>
    rw [reread]
    split_ifs
    · obtain ⟨c, t, hprint, hc⟩ := print_head d
      exact ⟨c, t, by rw [stringify, hprint], numberHead hc⟩
    · exact hnull
  | str | arr | obj => cases h

/-- The text of a value begins with no white space and does not close a table or an array. -/
theorem tomlValue_head (v : Json) :
  ∃ c t, tomlValue v = c :: t ∧ Ecma.isSpace c = false ∧ isWs c = false ∧ c ≠ ']' ∧ c ≠ '\x7d'
  := by
  cases htoken : isToken v with
  | true =>
    obtain ⟨c, t, hc, hspace, hws, hclose, hbrace, -⟩ := token_head htoken
    exact ⟨c, t, hc, hspace, hws, hclose, hbrace⟩
  | false =>
  cases v with
  | null | bool | num => cases htoken
  | str s => exact ⟨'"', s.toList.flatMap quoteChar ++ ['"'], by simp only [tomlValue, stringify, quote], by decide⟩
  | arr xs => exact ⟨'[', _, by rw [tomlValue], by decide⟩
  | obj ms =>
    cases ms with
    | nil => exact ⟨'\x7b', _, by rw [tomlValue], by decide⟩
    | cons m ms => exact ⟨'\x7b', _, by rw [tomlValue.eq_3 _ (by simp)], by decide⟩

/-- A token is read. -/
theorem scanTomlValue_token (h : isToken v = true) (n : ℕ) (hs : Ends s) :
  scanTomlValue (n + 1) (tomlValue v ++ s) = some (reread v, s)
  := by
  obtain ⟨c, t, hc, hspace, -, -, -, hquote, hlit, hbracket, hbrace⟩ := token_head h
  have htoken := takeWhile_token (fun c hc => endsToken_of_isTokenChar (isTokenChar_of_mem h c hc)) hs
  have hparse : parse (tomlValue v) = some (reread v) := by
    rw [tomlValue_eq_stringify h]
    exact parse_stringify (ordered_reread_token h)
  rw [hc] at htoken hparse ⊢
  rw [cons_append] at htoken ⊢
  rw [scanTomlValue, skipTomlSeparators_cons hspace]
  split
  · next heq => exact absurd (List.cons.inj heq).1 hbrace
  · next heq => exact absurd (List.cons.inj heq).1 hbracket
  · next heq => exact absurd (List.cons.inj heq).1 hquote
  · next heq => exact absurd (List.cons.inj heq).1 hlit
  · rw [htoken.1, htoken.2, hparse]
    rfl

theorem isSpace_of_isBareChar (h : isBareChar c = true) :
  Ecma.isSpace c = false
  := by
  simp only [isBareChar, Bool.or_eq_true, decide_eq_true_eq] at h
  rcases h with (halpha | rfl) | rfl
  · apply isSpace_of_isTokenChar
    simp [isTokenChar, halpha]
  all_goals decide

/-- What a bare name does not contain. -/
theorem ne_of_isBareChar {d : Char} (h : isBareChar c = true) (hd : isBareChar d = false) :
  c ≠ d
  := by
  rintro rfl
  rw [h] at hd
  cases hd

theorem bare_iff {k : String} :
  bare k = true ↔ k.toList ≠ [] ∧ ∀ c ∈ k.toList, isBareChar c = true
  := by
  rw [bare, Bool.and_eq_true_iff, all_eq_true]
  simp

/-- A text is read up to where a condition stops to hold. -/
theorem takeWhile_dropWhile {p : Char → Bool} {a : List Char} (ha : ∀ c ∈ a, p c = true)
    (hs : ∀ c ∈ s.head?, p c = false) :
  (a ++ s).takeWhile p = a ∧ (a ++ s).dropWhile p = s
  := by
  have hstop : s.takeWhile p = [] ∧ s.dropWhile p = s := by
    cases s with
    | nil => exact ⟨rfl, rfl⟩
    | cons c s => simp [hs c rfl]
  constructor
  · rw [takeWhile_append_of_pos ha, hstop.1, append_nil]
  · rw [dropWhile_append_of_pos ha, hstop.2]

/-- A key is read. -/
theorem scanTomlKey_tomlKey (k : String) (s : List Char) :
  scanTomlKey (tomlKey k ++ ' ' :: s) = some (k, ' ' :: s)
  := by
  rw [tomlKey]
  split_ifs with hbare
  · obtain ⟨hne, hall⟩ := bare_iff.mp hbare
    have hread := takeWhile_dropWhile (s := ' ' :: s) hall (by
      intro c hc
      cases hc
      decide)
    obtain ⟨c, t, hk⟩ := exists_cons_of_ne_nil hne
    have hc : isBareChar c = true := by
      apply hall
      rw [hk]
      exact mem_cons_self
    have hkey : String.ofList (c :: t) = k := by
      rw [← hk, String.ofList_toList]
    rw [hk, cons_append] at hread ⊢
    rw [scanTomlKey, skipTomlSeparators_cons (isSpace_of_isBareChar hc)]
    split
    · next heq => exact absurd (List.cons.inj heq).1 (ne_of_isBareChar hc (by decide))
    · next heq => exact absurd (List.cons.inj heq).1 (ne_of_isBareChar hc (by decide))
    · rw [hread.1, hread.2]
      dsimp only
      rw [hkey]
  have hscan := scanTomlString_quote k (' ' :: s)
  rw [quote, cons_append] at hscan ⊢
  rw [scanTomlKey, skipTomlSeparators_cons (by decide)]
  exact hscan

/-- A key begins with no white space and does not close a table. -/
theorem tomlKey_head (k : String) :
  ∃ c t, tomlKey k = c :: t ∧ Ecma.isSpace c = false ∧ c ≠ '\x7d' ∧ isWs c = false
  := by
  rw [tomlKey]
  split_ifs with hbare
  · obtain ⟨hne, hall⟩ := bare_iff.mp hbare
    obtain ⟨c, t, hk⟩ := exists_cons_of_ne_nil hne
    have hc : isBareChar c = true := by
      apply hall
      rw [hk]
      exact mem_cons_self
    use c, t, hk, isSpace_of_isBareChar hc, ne_of_isBareChar hc (by decide)
    simp only [isWs, Bool.or_eq_false_iff, decide_eq_false_iff_not]
    exact ⟨⟨⟨ne_of_isBareChar hc (by decide), ne_of_isBareChar hc (by decide)⟩,
      ne_of_isBareChar hc (by decide)⟩, ne_of_isBareChar hc (by decide)⟩
  · exact ⟨'"', k.toList.flatMap quoteChar ++ ['"'], rfl, by decide⟩

/-- The value is scanned back from its text, however deep the scanner stands. -/
def Scans (v : Json) : Prop :=
  ∀ (n : ℕ) (s : List Char), 2 * (tomlValue v).length + 1 ≤ n → Ends s →
    scanTomlValue n (tomlValue v ++ s) = some (reread v, s)

theorem scanTomlValue_quote (n : ℕ) (s : List Char) :
  scanTomlValue (n + 1) ('"' :: s) =
    (scanTomlString ('"' :: s)).map fun (value, s) => (.str value, s)
  := by
  rw [scanTomlValue, skipTomlSeparators_cons (by decide)]
  rfl

theorem scanTomlValue_bracket (n : ℕ) (s : List Char) :
  scanTomlValue (n + 1) ('[' :: s) =
    match skipTomlSeparators s with
    | ']' :: s => some (.arr [], s)
    | s => scanTomlArray n [] s
  := by
  rw [scanTomlValue, skipTomlSeparators_cons (by decide)]
  rfl

theorem scanTomlValue_brace (n : ℕ) (s : List Char) :
  scanTomlValue (n + 1) ('\x7b' :: s) =
    match skipTomlSeparators s with
    | '\x7d' :: s => some (.obj [], s)
    | s => scanTomlInlineTable n [] s
  := by
  rw [scanTomlValue, skipTomlSeparators_cons (by decide)]
  rfl

theorem scans_str (k : String) :
  Scans (.str k)
  := by
  intro n s hn _
  obtain ⟨n, rfl⟩ : ∃ l, n = l + 1 := ⟨n - 1, by omega⟩
  have hscan := scanTomlString_quote k s
  have hvalue : tomlValue (.str k) = quote k := by
    simp only [tomlValue, stringify]
  have hreread : reread (.str k) = .str k := by
    simp only [reread]
  rw [hvalue, hreread]
  rw [quote, cons_append] at hscan ⊢
  rw [scanTomlValue_quote, hscan]
  rfl

/-- The further elements of an array and its end. -/
def moreElements (xs : List Json) (s : List Char) : List Char :=
  (tomlElements xs).flatMap ([',', ' '] ++ ·) ++ ']' :: s

/-- The further members of an inline table and its end. -/
def moreMembers (ms : List (String × Json)) (s : List Char) : List Char :=
  (tomlMembers ms).flatMap ([',', ' '] ++ ·) ++ ' ' :: '\x7d' :: s

theorem moreElements_cons (x : Json) (xs : List Json) (s : List Char) :
  moreElements (x :: xs) s = ',' :: ' ' :: (tomlValue x ++ moreElements xs s)
  := by
  simp [moreElements, tomlElements]

theorem moreMembers_cons (k : String) (v : Json) (ms : List (String × Json)) (s : List Char) :
  moreMembers ((k, v) :: ms) s =
    ',' :: ' ' :: (tomlKey k ++ ' ' :: '=' :: ' ' :: (tomlValue v ++ moreMembers ms s))
  := by
  simp [moreMembers, tomlMembers]

theorem ends_moreElements (xs : List Json) (s : List Char) :
  Ends (moreElements xs s)
  := by
  cases xs with
  | nil => exact ends_cons (by decide)
  | cons x xs =>
    rw [moreElements_cons]
    exact ends_cons (by decide)

theorem ends_moreMembers (ms : List (String × Json)) (s : List Char) :
  Ends (moreMembers ms s)
  := by
  cases ms with
  | nil => exact ends_cons (by decide)
  | cons m ms =>
    rw [moreMembers_cons]
    exact ends_cons (by decide)

theorem tomlValue_arr (x : Json) (xs : List Json) (s : List Char) :
  tomlValue (.arr (x :: xs)) ++ s = '[' :: (tomlValue x ++ moreElements xs s)
  := by
  rw [tomlValue, tomlElements, intercalate_cons]
  simp [moreElements]

theorem tomlValue_obj (k : String) (v : Json) (ms : List (String × Json)) (s : List Char) :
  tomlValue (.obj ((k, v) :: ms)) ++ s =
    '\x7b' :: ' ' :: (tomlKey k ++ ' ' :: '=' :: ' ' :: (tomlValue v ++ moreMembers ms s))
  := by
  rw [tomlValue.eq_3 _ (by simp), tomlMembers, intercalate_cons]
  simp [moreMembers]

/-- Before a value there is no end of an array. -/
theorem skipTomlSeparators_tomlValue (v : Json) (s : List Char) :
  skipTomlSeparators (tomlValue v ++ s) = tomlValue v ++ s
  := by
  obtain ⟨c, t, hc, hspace, -⟩ := tomlValue_head v
  rw [hc, cons_append, skipTomlSeparators_cons hspace]

theorem skipTomlSeparators_tomlKey (k : String) (s : List Char) :
  skipTomlSeparators (tomlKey k ++ s) = tomlKey k ++ s
  := by
  obtain ⟨c, t, hc, hspace, -⟩ := tomlKey_head k
  rw [hc, cons_append, skipTomlSeparators_cons hspace]

/-- A space before a value does not matter. -/
theorem scanTomlValue_space (n : ℕ) (s : List Char) :
  scanTomlValue n (' ' :: s) = scanTomlValue n s
  := by
  cases n with
  | zero => rfl
  | succ n => rw [scanTomlValue, scanTomlValue, skipTomlSeparators_space]

theorem scanTomlKey_space (s : List Char) :
  scanTomlKey (' ' :: s) = scanTomlKey s
  := by
  rw [scanTomlKey, scanTomlKey, skipTomlSeparators_space]

/-- A space before a key does not matter. -/
theorem scanTomlInlineTable_space (n : ℕ) (out : List (String × Json)) (s : List Char) :
  scanTomlInlineTable n out (' ' :: s) = scanTomlInlineTable n out s
  := by
  cases n with
  | zero => rfl
  | succ n => rw [scanTomlInlineTable, scanTomlInlineTable, scanTomlKey_space]

theorem scanTomlArray_space (n : ℕ) (out : List Json) (s : List Char) :
  scanTomlArray n out (' ' :: s) = scanTomlArray n out s
  := by
  cases n with
  | zero => rfl
  | succ n => rw [scanTomlArray, scanTomlArray, scanTomlValue_space]

/-- A nonempty array is scanned by scanning its elements. -/
theorem scanTomlValue_arr (n : ℕ) (x : Json) (xs : List Json) (s : List Char) :
  scanTomlValue (n + 1) (tomlValue (.arr (x :: xs)) ++ s) =
    scanTomlArray n [] (tomlValue x ++ moreElements xs s)
  := by
  obtain ⟨c, t, hc, hspace, -, hclose, -⟩ := tomlValue_head x
  rw [tomlValue_arr, scanTomlValue_bracket, skipTomlSeparators_tomlValue, hc, cons_append]
  split
  · next heq => exact absurd (List.cons.inj heq).1 hclose
  · rfl

/-- A nonempty table is scanned by scanning its members. -/
theorem scanTomlValue_obj (n : ℕ) (k : String) (v : Json) (ms : List (String × Json))
    (s : List Char) :
  scanTomlValue (n + 1) (tomlValue (.obj ((k, v) :: ms)) ++ s) = scanTomlInlineTable n []
      (tomlKey k ++ ' ' :: '=' :: ' ' :: (tomlValue v ++ moreMembers ms s))
  := by
  obtain ⟨c, t, hc, hspace, hclose, -⟩ := tomlKey_head k
  rw [tomlValue_obj, scanTomlValue_brace, skipTomlSeparators_space, skipTomlSeparators_tomlKey,
    hc, cons_append]
  split
  · next heq => exact absurd (List.cons.inj heq).1 hclose
  · rfl

/-- A member is scanned, and then what comes behind it. -/
theorem scanTomlInlineTable_member
    {n : ℕ} {out : List (String × Json)} {k : String}
    (hv : scanTomlValue n (tomlValue v ++ s) = some (reread v, s)) :
  scanTomlInlineTable (n + 1) out (tomlKey k ++ ' ' :: '=' :: ' ' :: (tomlValue v ++ s)) =
    match skipTomlSeparators s with
    | ',' :: s => scanTomlInlineTable n (setInline out k (reread v)) s
    | '\x7d' :: s => some (.obj (setInline out k (reread v)), s)
    | _ => none
  := by
  rw [scanTomlInlineTable, scanTomlKey_tomlKey]
  dsimp only
  rw [skipTomlSeparators_space, skipTomlSeparators_cons (by decide)]
  simp only [scanTomlValue_space, hv] <;> rfl

/-- Members in order are set one behind the other. -/
theorem foldl_setInline : ∀ (ms out : List (String × Json)), InOrder (out ++ ms) →
    ms.foldl (fun out m => setInline out m.1 (reread m.2)) out = out ++ rereadMembers ms
  | [], out, _ => by
      rw [rereadMembers, append_nil]
      rfl
  | (k, v) :: ms, out, h => by
      rw [foldl_cons, rereadMembers, setInline]
      split_ifs with hproto
      · apply foldl_setInline ms out
        apply List.Pairwise.sublist _ h
        exact (sublist_cons_self (k, v) ms).append_left out
      have hlast : ∀ m ∈ out, Before m (k, reread v) := fun m hm =>
        (pairwise_append.mp h).2.2 m hm (k, v) mem_cons_self
      rw [setMember_of_last hlast, foldl_setInline ms, append_assoc, singleton_append]
      apply h.of_keys
      simp

mutual

/-- What is written for an ordered value is scanned back. -/
theorem scans_of_ordered : ∀ v : Json, Ordered v → Scans v
  | .null, _ | .bool b, _ | .num d, _ => fun n s hn hs => by
      obtain ⟨n, rfl⟩ : ∃ l, n = l + 1 := ⟨n - 1, by omega⟩
      exact scanTomlValue_token rfl n hs
  | .str k, _ => scans_str k
  | .arr [], _ => fun n s hn _ => by
      obtain ⟨n, rfl⟩ : ∃ l, n = l + 1 := ⟨n - 1, by omega⟩
      rw [reread, rereadElements, tomlValue, tomlElements]
      exact scanTomlValue_bracket n (']' :: s)
  | .arr (x :: xs), h => fun n s hn _ => by
      obtain ⟨n, rfl⟩ : ∃ l, n = l + 1 := ⟨n - 1, by omega⟩
      rw [Ordered, OrderedElements] at h
      have hlen := congrArg List.length (tomlValue_arr x xs [])
      simp only [append_nil, length_cons, length_append] at hlen
      rw [scanTomlValue_arr, scanTomlArray_of_ordered xs h.2 n [] (scans_of_ordered x h.1)]
      · rw [reread, rereadElements]
        rfl
      · omega
  | .obj [], _ => fun n s hn _ => by
      obtain ⟨n, rfl⟩ : ∃ l, n = l + 1 := ⟨n - 1, by omega⟩
      rw [reread, rereadMembers, tomlValue]
      exact scanTomlValue_brace n ('\x7d' :: s)
  | .obj ((k, v) :: ms), h => fun n s hn _ => by
      obtain ⟨n, rfl⟩ : ∃ l, n = l + 1 := ⟨n - 1, by omega⟩
      have horder : InOrder ([] ++ (k, v) :: ms) := (ordered_obj_iff.mp h).1
      rw [Ordered, OrderedMembers] at h
      have hlen := congrArg List.length (tomlValue_obj k v ms [])
      simp only [append_nil, length_cons, length_append] at hlen
      rw [scanTomlValue_obj,
        scanTomlInlineTable_of_ordered ms h.2.2 n [] k (scans_of_ordered v h.2.1)]
      · have hfold := foldl_setInline ((k, v) :: ms) [] horder
        rw [foldl_cons] at hfold
        rw [hfold, reread]
        rfl
      · omega

/-- The further elements of an array are scanned back. -/
theorem scanTomlArray_of_ordered : ∀ xs : List Json, OrderedElements xs →
    ∀ (n : ℕ) (out : List Json) {x : Json} {s : List Char}, Scans x →
      2 * ((tomlValue x).length + (moreElements xs []).length) ≤ n →
      scanTomlArray n out (tomlValue x ++ moreElements xs s) =
        some (.arr (out ++ reread x :: rereadElements xs), s)
  | [], _ => by
      intro n out x s hx hn
      rw [moreElements, tomlElements, flatMap_nil, nil_append] at hn ⊢
      rw [length_singleton] at hn
      obtain ⟨n, rfl⟩ : ∃ l, n = l + 1 := ⟨n - 1, by omega⟩
      rw [scanTomlArray, hx n _ (by omega) (ends_cons (by decide))]
      dsimp only
      rw [skipTomlSeparators_cons (by decide), rereadElements]
      rfl
  | y :: ys, h => by
      intro n out x s hx hn
      rw [OrderedElements] at h
      have hend := ends_moreElements (y :: ys) s
      rw [moreElements_cons] at hn hend ⊢
      simp only [length_cons, length_append] at hn
      obtain ⟨n, rfl⟩ : ∃ l, n = l + 1 := ⟨n - 1, by omega⟩
      rw [scanTomlArray, hx n _ (by omega) hend]
      dsimp only
      rw [skipTomlSeparators_cons (by decide)]
      change scanTomlArray n (out ++ [reread x]) _ = _
      rw [scanTomlArray_space, scanTomlArray_of_ordered ys h.2 n _ (scans_of_ordered y h.1)
        (by omega), rereadElements]
      simp

/-- The further members of an inline table are scanned back. -/
theorem scanTomlInlineTable_of_ordered : ∀ ms : List (String × Json), OrderedMembers ms →
    ∀ (n : ℕ) (out : List (String × Json)) (k : String) {v : Json} {s : List Char}, Scans v →
      2 * ((tomlKey k).length + (tomlValue v).length + (moreMembers ms []).length) ≤ n →
      scanTomlInlineTable n out
          (tomlKey k ++ ' ' :: '=' :: ' ' :: (tomlValue v ++ moreMembers ms s)) =
        some (.obj (ms.foldl (fun out m => setInline out m.1 (reread m.2))
          (setInline out k (reread v))), s)
  | [], _ => by
      intro n out k v s hv hn
      rw [moreMembers, tomlMembers, flatMap_nil, nil_append] at hn ⊢
      simp only [length_cons, length_nil] at hn
      obtain ⟨n, rfl⟩ : ∃ l, n = l + 1 := ⟨n - 1, by omega⟩
      rw [scanTomlInlineTable_member (hv n _ (by omega) (ends_cons (by decide)))]
      rw [skipTomlSeparators_space, skipTomlSeparators_cons (by decide)]
      rfl
  | (l, w) :: ms, h => by
      intro n out k v s hv hn
      rw [OrderedMembers] at h
      have hend := ends_moreMembers ((l, w) :: ms) s
      rw [moreMembers_cons] at hn hend ⊢
      simp only [length_cons, length_append] at hn
      obtain ⟨n, rfl⟩ : ∃ l, n = l + 1 := ⟨n - 1, by omega⟩
      rw [scanTomlInlineTable_member (hv n _ (by omega) hend), skipTomlSeparators_cons (by decide)]
      change scanTomlInlineTable n (setInline out k (reread v)) _ = _
      rw [scanTomlInlineTable_space,
        scanTomlInlineTable_of_ordered ms h.2 n _ l (scans_of_ordered w h.1) (by omega)]
      rfl

end

/-! ### Reading as JSON -/

/-- If the text of a value is read as JSON, it is read as what is scanned. -/
def Agrees (v : Json) : Prop :=
  ∀ (n : ℕ) {s t : List Char} {w : Json}, Decimal.Ends s →
    parseValue n (tomlValue v ++ s) = some (w, t) → w = reread v ∧ t = s

theorem parseValue_token (h : isToken v = true) (n : ℕ) (hs : Decimal.Ends s) :
  parseValue (n + 1) (tomlValue v ++ s) = some (reread v, s)
  := by
  have hnull : ∀ s, parseValue (n + 1) (stringify .null ++ s) = some (.null, s) := by
    intro s
    rw [stringify]
    rfl
  rw [tomlValue_eq_stringify h]
  cases v with
  | null =>
    rw [reread.eq_4 .null nofun nofun nofun]
    exact hnull s
  | bool b =>
    rw [reread.eq_4 (.bool b) nofun nofun nofun]
    cases b with
    | true | false =>
      rw [stringify]
      rfl
  | num d =>
    rw [reread]
    split_ifs
    · obtain ⟨c, t, hprint, hc⟩ := print_head d
      have hscan := Decimal.scan_print d hs
      rw [hprint, cons_append] at hscan
      rw [stringify, hprint, cons_append, parseValue_number hc, hscan]
      rfl
    · exact hnull s
  | str | arr | obj => cases h

theorem agrees_token (h : isToken v = true) :
  Agrees v
  := by
  intro n s t w hs hread
  cases n with
  | zero => cases hread
  | succ n =>
    rw [parseValue_token h n hs] at hread
    cases hread
    exact ⟨rfl, rfl⟩

theorem parseValue_quote (n : ℕ) (s : List Char) :
  parseValue (n + 1) ('"' :: s) = (parseString s).map fun (k, s) => (.str k, s)
  := by
  rw [parseValue, skipWs_of_not_isWs (by decide)]
  rfl

theorem parseValue_bracket (n : ℕ) (s : List Char) :
  parseValue (n + 1) ('[' :: s) =
    match skipWs s with
    | ']' :: s => some (.arr [], s)
    | s => parseElements n [] s
  := by
  rw [parseValue, skipWs_of_not_isWs (by decide)]
  rfl

theorem parseValue_brace (n : ℕ) (s : List Char) :
  parseValue (n + 1) ('\x7b' :: s) =
    match skipWs s with
    | '\x7d' :: s => some (.obj [], s)
    | s => parseMembers n [] s
  := by
  rw [parseValue, skipWs_of_not_isWs (by decide)]
  rfl

theorem skipWs_space (s : List Char) :
  skipWs (' ' :: s) = skipWs s
  := rfl

theorem skipWs_tomlValue (v : Json) (s : List Char) :
  skipWs (tomlValue v ++ s) = tomlValue v ++ s
  := by
  obtain ⟨c, t, hc, -, hws, -⟩ := tomlValue_head v
  rw [hc, cons_append, skipWs_of_not_isWs hws]

/-- Space before an element does not matter. -/
theorem parseElements_space (n : ℕ) (out : List Json) (s : List Char) :
  parseElements n out (' ' :: s) = parseElements n out s
  := by
  cases n with
  | zero => rfl
  | succ n =>
  rw [parseElements, parseElements]
  cases n with
  | zero => rfl
  | succ n => rw [parseValue, parseValue, skipWs_space]

/-- A key that begins with a quote is one in quotes. -/
theorem tomlKey_eq_quote {k : String} {t : List Char} (h : tomlKey k = '"' :: t) :
  t = k.toList.flatMap quoteChar ++ ['"']
  := by
  rw [tomlKey] at h
  split_ifs at h with hbare
  · have hquote : isBareChar '"' = true := by
      apply (bare_iff.mp hbare).2
      rw [h]
      exact mem_cons_self
    exact absurd hquote (by decide)
  · exact (List.cons.inj h).2.symm

/-- An inline table with members is not JSON. -/
theorem parseValue_obj_eq_none (n : ℕ) (k : String) (v : Json) (ms : List (String × Json))
    (s : List Char) :
  parseValue n (tomlValue (.obj ((k, v) :: ms)) ++ s) = none
  := by
  cases n with
  | zero => rfl
  | succ n =>
  obtain ⟨c, t, hc, -, hclose, hws⟩ := tomlKey_head k
  rw [tomlValue_obj, parseValue_brace, skipWs_space, hc, cons_append, skipWs_of_not_isWs hws]
  split
  · next heq => exact absurd (List.cons.inj heq).1 hclose
  cases n with
  | zero => rfl
  | succ n =>
  rw [parseMembers, skipWs_of_not_isWs hws]
  -- Behind a key in quotes there is an equals sign, and no colon.
  split
  · rename_i heq
    obtain ⟨rfl, rfl⟩ := List.cons.inj heq
    obtain rfl := tomlKey_eq_quote hc
    rw [append_assoc, singleton_append, parseString_quote]
    rfl
  · rfl

mutual

theorem agrees : ∀ v : Json, Agrees v
  | .null | .bool _ | .num _ => agrees_token rfl
  | .str k => by
      intro n s t w _ hread
      cases n with
      | zero => cases hread
      | succ n =>
      have hvalue : tomlValue (.str k) = quote k := by
        simp only [tomlValue, stringify]
      rw [hvalue, quote, cons_append, append_assoc, singleton_append,
        parseValue_quote, parseString_quote] at hread
      cases hread
      exact ⟨by simp only [reread], rfl⟩
  | .arr [] => by
      intro n s t w _ hread
      cases n with
      | zero => cases hread
      | succ n =>
      rw [tomlValue, tomlElements] at hread
      change parseValue (n + 1) ('[' :: ']' :: s) = _ at hread
      rw [parseValue_bracket, skipWs_of_not_isWs (by decide)] at hread
      cases hread
      exact ⟨by rw [reread, rereadElements], rfl⟩
  | .arr (x :: xs) => by
      intro n s t w hs hread
      cases n with
      | zero => cases hread
      | succ n =>
      obtain ⟨c, r, hc, -, hws, hclose, -⟩ := tomlValue_head x
      rw [tomlValue_arr, parseValue_bracket, skipWs_tomlValue, hc, cons_append] at hread
      split at hread
      · next heq => exact absurd (List.cons.inj heq).1 hclose
      · rw [← cons_append, ← hc] at hread
        obtain ⟨rfl, rfl⟩ := agreesElements xs n [] (agrees x) hread
        exact ⟨by rw [reread, rereadElements, nil_append], rfl⟩
  | .obj [] => by
      intro n s t w _ hread
      cases n with
      | zero => cases hread
      | succ n =>
      rw [tomlValue] at hread
      change parseValue (n + 1) ('\x7b' :: '\x7d' :: s) = _ at hread
      rw [parseValue_brace, skipWs_of_not_isWs (by decide)] at hread
      cases hread
      exact ⟨by rw [reread, rereadMembers], rfl⟩
  | .obj ((k, v) :: ms) => by
      intro n s t w _ hread
      rw [parseValue_obj_eq_none] at hread
      cases hread

theorem agreesElements : ∀ (xs : List Json) (n : ℕ) (out : List Json) {x w : Json}
    {s t : List Char}, Agrees x →
    parseElements n out (tomlValue x ++ moreElements xs s) = some (w, t) →
    w = .arr (out ++ reread x :: rereadElements xs) ∧ t = s
  | xs, 0, _, _, _, _, _, _, hread => by
      cases hread
  | [], n + 1, out, x, w, s, t, hx, hread => by
      rw [parseElements] at hread
      split at hread
      · cases hread
      rename_i y u hy
      obtain ⟨rfl, rfl⟩ := hx n (ends_of_delimiter (Or.inr (Or.inl rfl))) hy
      change (match skipWs (']' :: s) with
        | ',' :: s => parseElements n (out ++ [reread x]) s
        | ']' :: s => some (.arr (out ++ [reread x]), s)
        | _ => none) = _ at hread
      rw [skipWs_of_not_isWs (by decide)] at hread
      cases hread
      exact ⟨by rw [rereadElements], rfl⟩
  | y :: ys, n + 1, out, x, w, s, t, hx, hread => by
      rw [moreElements_cons, parseElements] at hread
      split at hread
      · cases hread
      rename_i z u hz
      obtain ⟨rfl, rfl⟩ := hx n (ends_of_delimiter (Or.inl rfl)) hz
      rw [skipWs_of_not_isWs (by decide)] at hread
      change parseElements n (out ++ [reread x]) (' ' :: (tomlValue y ++ moreElements ys s)) = _
        at hread
      rw [parseElements_space] at hread
      obtain ⟨rfl, rfl⟩ := agreesElements ys n _ (agrees y) hread
      exact ⟨by simp [rereadElements], rfl⟩

end

/-- What is read for the text of an ordered value. -/
theorem parseTomlValue_tomlValue (h : Ordered v) :
  parseTomlValue (tomlValue v) = some (reread v)
  := by
  rw [parseTomlValue]
  cases hparse : parse (tomlValue v) with
  | some w =>
    rw [parse] at hparse
    split at hparse
    · cases hparse
    rename_i u t hread
    split_ifs at hparse
    cases hparse
    rw [← append_nil (tomlValue v)] at hread
    rw [(agrees v _ Decimal.Ends.nil hread).1]
  | none =>
  have hscan := scans_of_ordered v h _ [] le_rfl ends_nil
  rw [append_nil] at hscan
  simp only [hscan]
  rfl

end Config.Toml
