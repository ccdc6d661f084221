import VolundCode.Config.TomlLeaves

/-!
# Keys and values that are read as they are

A value is read again as it is just if it has no line separator, no number that is not finite and
no member named `__proto__` (`plain_iff`), and a key just if nothing in it is escaped
(`keyRead_eq_iff`). A key is never read shorter than it is (`length_keyRead`).
-/

namespace Config.Toml

open Json List Lines

/-! ### Texts on one line -/

/-- A text without line and paragraph separators. -/
def plainText (s : String) : Bool :=
  s.toList.all fun c => c ≠ '\u2028' && c ≠ '\u2029'

theorem plainText_iff {s : String} :
  plainText s ↔ ∀ c ∈ s.toList, c ≠ '\u2028' ∧ c ≠ '\u2029'
  := by
  simp [plainText]

variable {c : Char}

/-- The characters that end a line. -/
theorem isBreak_eq_false_iff :
  isBreak c = false ↔ c ≠ '\n' ∧ c ≠ '\r' ∧ c ≠ '\u2028' ∧ c ≠ '\u2029'
  := by
  simp [isBreak, and_assoc]

variable {s : List Char}

theorem unbroken_cons :
  Lines.Unbroken (c :: s) ↔ isBreak c = false ∧ Lines.Unbroken s
  := forall_mem_cons

theorem unbroken_append {t : List Char} :
  Lines.Unbroken (s ++ t) ↔ Lines.Unbroken s ∧ Lines.Unbroken t
  := forall_mem_append

/-- The text of a character is on one line, but for the separators. -/
theorem unbroken_quoteChar :
  Lines.Unbroken (quoteChar c) ↔ c ≠ '\u2028' ∧ c ≠ '\u2029'
  := by
  constructor
  · intro h
    constructor
    · rintro rfl
      exact absurd (h '\u2028' (by decide)) (by decide)
    · rintro rfl
      exact absurd (h '\u2029' (by decide)) (by decide)
  rintro ⟨hline, hparagraph⟩ d hd
  rw [isBreak_eq_false_iff]
  have hne : ∀ {e : Char}, c ≠ e → isEscapeChar e = false → d ≠ e := by
    rintro e hce he rfl
    exact notMem_quoteChar hce he hd
  refine ⟨?_, ?_, hne hline (by decide), hne hparagraph (by decide)⟩
  · by_cases hc : c = '\n'
    · rw [hc] at hd
      rintro rfl
      exact absurd hd (by decide)
    · exact hne hc (by decide)
  by_cases hc : c = '\r'
  · rw [hc] at hd
    rintro rfl
    exact absurd hd (by decide)
  · exact hne hc (by decide)

theorem unbroken_quote {s : String} :
  Lines.Unbroken (quote s) ↔ plainText s
  := by
  rw [quote, unbroken_cons, unbroken_append, plainText_iff, Lines.Unbroken, forall_mem_flatMap]
  constructor
  · rintro ⟨-, h, -⟩ c hc
    exact unbroken_quoteChar.mp (h c hc)
  · intro h
    exact ⟨by decide, fun c hc => unbroken_quoteChar.mpr (h c hc), by decide⟩

theorem unbroken_tomlKey {k : String} :
  Lines.Unbroken (tomlKey k) ↔ plainText k
  := by
  rw [tomlKey]
  split_ifs with hbare
  · have hchar := (bare_iff.mp hbare).2
    rw [plainText_iff]
    constructor
    · intro h c hc
      exact (isBreak_eq_false_iff.mp (h c hc)).2.2
    · intro h c hc
      exact isBreak_eq_false_iff.mpr ⟨ne_of_isBareChar (hchar c hc) (by decide),
        ne_of_isBareChar (hchar c hc) (by decide), h c hc⟩
  · exact unbroken_quote

theorem unbroken_token {v : Json} (h : isToken v) :
  Lines.Unbroken (tomlValue v)
  := by
  intro c hc
  have hchar := isTokenChar_of_mem h c hc
  exact isBreak_eq_false_iff.mpr ⟨isTokenChar_ne hchar (by decide),
    isTokenChar_ne hchar (by decide), isTokenChar_ne hchar (by decide),
    isTokenChar_ne hchar (by decide)⟩

theorem unbroken_moreElements {xs : List Json} :
  Lines.Unbroken (moreElements xs s) ↔ (∀ x ∈ xs, Lines.Unbroken (tomlValue x)) ∧ Lines.Unbroken s
  := by
  induction xs with
  | nil =>
    change Lines.Unbroken (']' :: s) ↔ _
    rw [unbroken_cons]
    simp [isBreak]
  | cons x xs ih =>
    rw [moreElements_cons, unbroken_cons, unbroken_cons, unbroken_append, ih,
      forall_mem_cons, and_assoc]
    simp [isBreak]

theorem unbroken_moreMembers {ms : List (String × Json)} :
  Lines.Unbroken (moreMembers ms s) ↔
    (∀ m ∈ ms, plainText m.1 ∧ Lines.Unbroken (tomlValue m.2)) ∧ Lines.Unbroken s
  := by
  induction ms with
  | nil =>
    change Lines.Unbroken (' ' :: '\x7d' :: s) ↔ _
    rw [unbroken_cons, unbroken_cons]
    simp [isBreak]
  | cons m ms ih =>
  rw [moreMembers_cons, unbroken_cons, unbroken_cons, unbroken_append, unbroken_cons,
    unbroken_cons, unbroken_cons, unbroken_append, ih, forall_mem_cons, unbroken_tomlKey,
    and_assoc, and_assoc]
  simp [isBreak]

/-- An array is on one line just if its elements are. -/
theorem unbroken_arr {xs : List Json} :
  Lines.Unbroken (tomlValue (.arr xs)) ↔ ∀ x ∈ xs, Lines.Unbroken (tomlValue x)
  := by
  cases xs with
  | nil =>
    rw [tomlValue, tomlElements]
    simp [Lines.Unbroken, isBreak]
  | cons x xs =>
  have heq := tomlValue_arr x xs []
  rw [append_nil] at heq
  rw [heq, unbroken_cons, unbroken_append, unbroken_moreElements, forall_mem_cons]
  simp [isBreak, Lines.Unbroken]

/-- An inline table is on one line just if its keys and its values are. -/
theorem unbroken_obj {ms : List (String × Json)} :
  Lines.Unbroken (tomlValue (.obj ms)) ↔ ∀ m ∈ ms, plainText m.1 ∧ Lines.Unbroken (tomlValue m.2)
  := by
  cases ms with
  | nil =>
    rw [tomlValue]
    simp [Lines.Unbroken, isBreak]
  | cons m ms =>
  have heq := tomlValue_obj m.1 m.2 ms []
  rw [append_nil] at heq
  rw [heq, unbroken_cons, unbroken_cons, unbroken_append, unbroken_cons, unbroken_cons,
    unbroken_cons, unbroken_append, unbroken_moreMembers, forall_mem_cons,
    unbroken_tomlKey, and_assoc]
  simp [isBreak, Lines.Unbroken]

/-! ### Values -/

theorem rereadElements_eq_iff {xs : List Json} :
  rereadElements xs = xs ↔ ∀ x ∈ xs, reread x = x
  := by
  induction xs with
  | nil => simp [rereadElements]
  | cons x xs ih => rw [rereadElements, List.cons.injEq, ih, forall_mem_cons]

/-- Members are only left out. -/
theorem length_rereadMembers (ms : List (String × Json)) :
  (rereadMembers ms).length ≤ ms.length
  := by
  induction ms with
  | nil => rfl
  | cons m ms ih =>
  rw [rereadMembers]
  split_ifs
  · exact ih.trans (Nat.le_succ _)
  · exact Nat.succ_le_succ ih

theorem rereadMembers_eq_iff {ms : List (String × Json)} :
  rereadMembers ms = ms ↔ ∀ m ∈ ms, m.1 ≠ "__proto__" ∧ reread m.2 = m.2
  := by
  induction ms with
  | nil => simp [rereadMembers]
  | cons m ms ih =>
  rw [rereadMembers, forall_mem_cons]
  split_ifs with hproto
  · constructor
    · intro h
      have hlen := length_rereadMembers ms
      rw [h, length_cons] at hlen
      omega
    · rintro ⟨⟨hne, -⟩, -⟩
      exact absurd hproto hne
  · rw [List.cons.injEq, ih, Prod.mk.injEq]
    exact and_congr_left fun _ => ⟨fun h => ⟨hproto, h.2⟩, fun h => ⟨rfl, h.2⟩⟩

mutual

/-- A value without line separators, numbers that are not finite and members named `__proto__`. -/
def plain : Json → Bool
  | .num d => finite d
  | .str s => plainText s
  | .arr xs => plainElements xs
  | .obj ms => plainMembers ms
  | _ => true

/-- `plain` of every element. -/
def plainElements : List Json → Bool
  | [] => true
  | x :: xs => plain x && plainElements xs

/-- `plain` of every member, and of its name. -/
def plainMembers : List (String × Json) → Bool
  | [] => true
  | (k, v) :: ms => k ≠ "__proto__" && plainText k && plain v && plainMembers ms

end

mutual

/-- A value is read as it is just if it is plain. -/
theorem plain_iff : ∀ (v : Json), plain v ↔ Lines.Unbroken (tomlValue v) ∧ reread v = v
  | .null | .bool b => by
      rw [plain, reread]
      exact ⟨fun _ => ⟨unbroken_token rfl, rfl⟩, fun _ => rfl⟩
      all_goals nofun
  | .num d => by
      rw [plain, reread, and_iff_right (unbroken_token rfl)]
      cases finite d with
      | true | false => simp
  | .str s => by
      have hvalue : tomlValue (.str s) = quote s := by simp only [tomlValue, stringify]
      have hreread : reread (.str s) = .str s := by simp only [reread]
      rw [plain, hvalue, hreread, unbroken_quote]
      simp
  | .arr xs => by
      rw [plain, plainElements_iff, unbroken_arr, reread, Json.arr.injEq, rereadElements_eq_iff,
        ← forall₂_and]
  | .obj ms => by
      rw [plain, plainMembers_iff, unbroken_obj, reread, Json.obj.injEq, rereadMembers_eq_iff]
      constructor
      · intro h
        exact ⟨fun m hm => ⟨(h m hm).2.1, (h m hm).2.2.1⟩,
          fun m hm => ⟨(h m hm).1, (h m hm).2.2.2⟩⟩
      · rintro ⟨h, h'⟩ m hm
        exact ⟨(h' m hm).1, (h m hm).1, (h m hm).2, (h' m hm).2⟩

theorem plainElements_iff : ∀ (xs : List Json),
    plainElements xs ↔ ∀ x ∈ xs, Lines.Unbroken (tomlValue x) ∧ reread x = x
  | [] => by simp [plainElements]
  | x :: xs => by
      rw [plainElements, Bool.and_eq_true_iff, plain_iff x, plainElements_iff xs, forall_mem_cons]

theorem plainMembers_iff : ∀ (ms : List (String × Json)), plainMembers ms ↔ ∀ m ∈ ms,
      m.1 ≠ "__proto__" ∧ plainText m.1 ∧ Lines.Unbroken (tomlValue m.2) ∧ reread m.2 = m.2
  | [] => by simp [plainMembers]
  | (k, v) :: ms => by
      rw [plainMembers, Bool.and_eq_true_iff, Bool.and_eq_true_iff, Bool.and_eq_true_iff,
        plain_iff v, plainMembers_iff ms, forall_mem_cons, decide_eq_true_eq]
      simp only [and_assoc]

end

/-! ### Keys -/

/-- A character that is not escaped. -/
def verbatimChar (c : Char) : Bool :=
  c ≠ '"' && c ≠ '\\' && 0x20 ≤ c.toNat

theorem one_le_length_quoteChar (c : Char) :
  1 ≤ (quoteChar c).length
  := by
  rw [quoteChar]
  split_ifs
  all_goals exact Nat.succ_le_succ (Nat.zero_le _)

/-- Of the characters that are longer when they are written all are escaped. -/
theorem quoteChar_eq_iff :
  quoteChar c = [c] ↔ verbatimChar c = true
  := by
  simp only [verbatimChar, Bool.and_eq_true, decide_eq_true_eq]
  constructor
  · intro h
    rw [quoteChar] at h
    split_ifs at h with h₁ h₂ h₃ h₄ h₅ h₆ h₇ h₈
    · exact absurd h (by simp)
    · exact absurd h (by simp)
    · exact absurd h (by simp)
    · exact absurd h (by simp)
    · exact absurd h (by simp)
    · exact absurd h (by simp)
    · exact absurd h (by simp)
    · exact absurd h (by simp)
    · exact ⟨⟨h₁, h₂⟩, by omega⟩
  rintro ⟨⟨hquote, hslash⟩, hcontrol⟩
  have hne : ∀ {d : Char}, d.toNat < 0x20 → c ≠ d := by
    rintro d hd rfl
    omega
  rw [quoteChar, if_neg hquote, if_neg hslash, if_neg (hne (by decide)), if_neg (hne (by decide)),
    if_neg (hne (by decide)), if_neg (hne (by decide)), if_neg (hne (by decide)),
    if_neg (by omega)]

theorem length_quoteChar_eq_one (h : (quoteChar c).length = 1) :
  quoteChar c = [c]
  := by
  rw [quoteChar] at h ⊢
  split_ifs at h ⊢
  all_goals first | rfl | cases h

theorem flatMap_quoteChar {cs : List Char} (h : ∀ c ∈ cs, quoteChar c = [c]) :
  cs.flatMap quoteChar = cs
  := by
  induction cs with
  | nil => rfl
  | cons c cs ih =>
    obtain ⟨hc, hcs⟩ := forall_mem_cons.mp h
    rw [flatMap_cons, hc, ih hcs, singleton_append]

/-- What is written for characters is no shorter, and as long just if nothing is escaped. -/
theorem length_flatMap_quoteChar (cs : List Char) :
  cs.length ≤ (cs.flatMap quoteChar).length ∧
    ((cs.flatMap quoteChar).length = cs.length → ∀ c ∈ cs, quoteChar c = [c])
  := by
  induction cs with
  | nil => exact ⟨le_refl 0, fun _ => forall_mem_nil _⟩
  | cons c cs ih =>
  obtain ⟨hle, hall⟩ := ih
  have hc := one_le_length_quoteChar c
  rw [flatMap_cons, length_append, length_cons]
  refine ⟨by omega, ?_⟩
  intro hlen
  exact forall_mem_cons.mpr
    ⟨length_quoteChar_eq_one (by omega), hall (by omega)⟩

theorem verbatimChar_of_isBareChar (h : isBareChar c = true) :
  quoteChar c = [c]
  := by
  have hcontrol : 0x20 ≤ c.toNat := by
    simp only [isBareChar, Bool.or_eq_true, decide_eq_true_eq] at h
    rcases h with (h | rfl) | rfl
    · have := toNat_of_isAlphanum h
      omega
    · decide
    · decide
  rw [quoteChar_eq_iff]
  simp only [verbatimChar, Bool.and_eq_true, decide_eq_true_eq]
  exact ⟨⟨ne_of_isBareChar h (by decide), ne_of_isBareChar h (by decide)⟩, hcontrol⟩

/-- A key is read as it is just if nothing in it is escaped. -/
theorem keyRead_eq_iff {k : String} :
  keyRead k = k ↔ ∀ c ∈ k.toList, quoteChar c = [c]
  := by
  rw [keyRead]
  split_ifs with hbare
  · rw [eq_self_iff_true, true_iff]
    intro c hc
    exact verbatimChar_of_isBareChar ((bare_iff.mp hbare).2 c hc)
  constructor
  · intro h
    have hchars := congrArg String.toList h
    rw [String.toList_ofList] at hchars
    exact (length_flatMap_quoteChar k.toList).2 (congrArg List.length hchars)
  · intro h
    rw [flatMap_quoteChar h, String.ofList_toList]

/-- A key is read no shorter than it is, and as long just if it is read as it is. -/
theorem length_keyRead (k : String) :
  k.toList.length ≤ (keyRead k).toList.length ∧
    ((keyRead k).toList.length = k.toList.length → keyRead k = k)
  := by
  rw [keyRead]
  split_ifs with hbare
  · exact ⟨le_refl _, fun _ => rfl⟩
  rw [String.toList_ofList]
  obtain ⟨hle, hall⟩ := length_flatMap_quoteChar k.toList
  refine ⟨hle, ?_⟩
  intro hlen
  rw [flatMap_quoteChar (hall hlen), String.ofList_toList]

/-- A name is written no shorter than it is, and as long just if it is bare. -/
theorem length_tomlKey (k : String) :
  k.toList.length ≤ (tomlKey k).length ∧ ((tomlKey k).length = k.toList.length → bare k = true)
  := by
  rw [tomlKey]
  split_ifs with hbare
  · exact ⟨le_refl _, fun _ => hbare⟩
  have hle := (length_flatMap_quoteChar k.toList).1
  rw [quote, length_cons, length_append, length_singleton]
  refine ⟨by omega, ?_⟩
  intro hlen
  omega

end Config.Toml
