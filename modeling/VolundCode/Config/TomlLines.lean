import VolundCode.Config.TomlValues
import VolundCode.Lib.Splitting

/-!
# Lines of configuration files

What is read for the lines that are written. A pair is read if there is no quote in its key and no
line separator in its value; its key is then read as it was written, with its escapes
(`readLine_pairLine`). A header is read if there is no closing bracket in it; the names that were
written in quotes keep them (`readLine_header`).
-/

namespace Config.Toml

open Json List

/-! ### No comments -/

/-- A text in which no string is left open and no comment begins. -/
def Balanced (a : List Char) : Prop :=
  ∀ s, stripFrom .plain (a ++ s) = a ++ stripFrom .plain s

theorem balanced_nil : Balanced [] :=
  fun _ => rfl

variable {a : List Char}

theorem Balanced.append {b : List Char} (ha : Balanced a) (hb : Balanced b) :
  Balanced (a ++ b)
  := by
  intro s
  rw [append_assoc, ha, hb, append_assoc]

variable {c : Char}

theorem Balanced.cons (ha : Balanced a) (hquote : c ≠ '"')
    (hlit : c ≠ '\x27') (hcomment : c ≠ '#') :
  Balanced (c :: a)
  := by
  intro s
  rw [cons_append, stripFrom, if_neg (by simp [hquote, hlit]), if_neg hcomment, ha, cons_append]

/-- A text without quotes and number signs is balanced. -/
theorem balanced_of_forall (h : ∀ c ∈ a, c ≠ '"' ∧ c ≠ '\x27' ∧ c ≠ '#') :
  Balanced a
  := by
  induction a with
  | nil => exact balanced_nil
  | cons c a ih =>
    obtain ⟨hquote, hlit, hcomment⟩ := h c mem_cons_self
    exact (ih fun d hd => h d (mem_cons_of_mem c hd)).cons hquote hlit hcomment

/-- A character in a basic string. -/
theorem stripFrom_quoted (hquote : c ≠ '"') (hslash : c ≠ '\\') (s : List Char) :
  stripFrom (.quoted '"') (c :: s) = c :: stripFrom (.quoted '"') s
  := by
  rw [stripFrom, if_neg (by simp [hslash]), if_neg hquote]

/-- An escape in a basic string. -/
theorem stripFrom_escape (c : Char) (s : List Char) :
  stripFrom (.quoted '"') ('\\' :: c :: s) = '\\' :: c :: stripFrom (.quoted '"') s
  := rfl

theorem stripFrom_quoteChar (c : Char) (s : List Char) :
  stripFrom (.quoted '"') (quoteChar c ++ s) = quoteChar c ++ stripFrom (.quoted '"') s
  := by
  rw [quoteChar]
  split_ifs with h₁ h₂ h₃ h₄ h₅ h₆ h₇ h₈
  · exact stripFrom_escape _ s
  · exact stripFrom_escape _ s
  · exact stripFrom_escape _ s
  · exact stripFrom_escape _ s
  · exact stripFrom_escape _ s
  · exact stripFrom_escape _ s
  · exact stripFrom_escape _ s
  · have hdigit : ∀ n t, stripFrom (.quoted '"') (hexDigit n :: t) =
        hexDigit n :: stripFrom (.quoted '"') t :=
      fun n t => stripFrom_quoted (hexDigit_ne n).2 (hexDigit_ne n).1 t
    simp only [hex4, cons_append, nil_append]
    rw [stripFrom_escape, hdigit, hdigit, hdigit, hdigit]
  · exact stripFrom_quoted h₁ h₂ s

/-- A string in quotes is balanced. -/
theorem balanced_quote (k : String) :
  Balanced (quote k)
  := by
  intro s
  have hchars : ∀ cs : List Char, stripFrom (.quoted '"') (cs.flatMap quoteChar ++ '"' :: s) =
      cs.flatMap quoteChar ++ '"' :: stripFrom .plain s := by
    intro cs
    induction cs with
    | nil => rfl
    | cons c cs ih => rw [flatMap_cons, append_assoc, stripFrom_quoteChar, ih, append_assoc]
  rw [quote, cons_append, append_assoc, singleton_append, stripFrom,
    if_pos (Or.inl rfl), hchars]
  simp

theorem balanced_tomlKey (k : String) :
  Balanced (tomlKey k)
  := by
  rw [tomlKey]
  split_ifs with hbare
  · apply balanced_of_forall
    intro c hc
    have hchar := (bare_iff.mp hbare).2 c hc
    exact ⟨ne_of_isBareChar hchar (by decide), ne_of_isBareChar hchar (by decide),
      ne_of_isBareChar hchar (by decide)⟩
  · exact balanced_quote k

theorem balanced_token {v : Json} (h : isToken v) :
  Balanced (tomlValue v)
  := by
  apply balanced_of_forall
  intro c hc
  have hchar := isTokenChar_of_mem h c hc
  exact ⟨isTokenChar_ne hchar (by decide), isTokenChar_ne hchar (by decide),
    isTokenChar_ne hchar (by decide)⟩

/-- A space, a comma, an equals sign, a bracket or a brace. -/
def isPunctuation (c : Char) : Bool :=
  c = ' ' || c = ',' || c = '=' || c = '[' || c = ']' || c = '\x7b' || c = '\x7d'

/-- What the text of a value is made of: strings, tokens, keys and what stands between them. -/
inductive Pieces : List Char → Prop where
  | nil : Pieces []
  | punctuation {c : Char} {s : List Char} (hc : isPunctuation c) (hs : Pieces s) :
    Pieces (c :: s)
  | string (k : String) {s : List Char} (hs : Pieces s) : Pieces (quote k ++ s)
  | token {v : Json} {s : List Char} (hv : isToken v) (hs : Pieces s) :
    Pieces (tomlValue v ++ s)
  | bare {k : String} {s : List Char} (hk : bare k) (hs : Pieces s) :
    Pieces (k.toList ++ s)

variable {s : List Char}

theorem Pieces.key (k : String) (hs : Pieces s) :
  Pieces (tomlKey k ++ s)
  := by
  rw [tomlKey]
  split_ifs with hbare
  · exact .bare hbare hs
  · exact .string k hs

mutual

/-- The text of a value is made of these pieces. -/
theorem pieces_tomlValue : ∀ (v : Json) {s : List Char}, Pieces s → Pieces (tomlValue v ++ s)
  | .null, _, hs | .bool _, _, hs | .num _, _, hs => .token rfl hs
  | .str k, s, hs => by
      have hvalue : tomlValue (.str k) = quote k := by
        simp only [tomlValue, stringify]
      rw [hvalue]
      exact .string k hs
  | .arr [], s, hs => by
      rw [tomlValue, tomlElements]
      exact .punctuation rfl (.punctuation rfl hs)
  | .arr (x :: xs), s, hs => by
      rw [tomlValue_arr]
      exact .punctuation rfl (pieces_tomlValue x (pieces_moreElements xs hs))
  | .obj [], s, hs => by
      rw [tomlValue]
      exact .punctuation rfl (.punctuation rfl hs)
  | .obj ((k, v) :: ms), s, hs => by
      rw [tomlValue_obj]
      exact .punctuation rfl (.punctuation rfl (.key k (.punctuation rfl (.punctuation rfl
        (.punctuation rfl (pieces_tomlValue v (pieces_moreMembers ms hs)))))))

theorem pieces_moreElements : ∀ (xs : List Json) {s : List Char}, Pieces s →
    Pieces (moreElements xs s)
  | [], _, hs => .punctuation rfl hs
  | x :: xs, s, hs => by
      rw [moreElements_cons]
      exact .punctuation rfl (.punctuation rfl (pieces_tomlValue x (pieces_moreElements xs hs)))

theorem pieces_moreMembers : ∀ (ms : List (String × Json)) {s : List Char}, Pieces s →
    Pieces (moreMembers ms s)
  | [], _, hs => .punctuation rfl (.punctuation rfl hs)
  | (k, v) :: ms, s, hs => by
      rw [moreMembers_cons]
      exact .punctuation rfl (.punctuation rfl (.key k (.punctuation rfl (.punctuation rfl
        (.punctuation rfl (pieces_tomlValue v (pieces_moreMembers ms hs)))))))

end

theorem isPunctuation_ne {d : Char} (h : isPunctuation c) (hd : isPunctuation d = false) :
  c ≠ d
  := by
  rintro rfl
  rw [h] at hd
  cases hd

/-- A text of such pieces is balanced. -/
theorem Pieces.balanced (h : Pieces a) :
  Balanced a
  := by
  induction h with
  | nil => exact balanced_nil
  | punctuation hc _ ih =>
    exact ih.cons (isPunctuation_ne hc (by decide)) (isPunctuation_ne hc (by decide))
      (isPunctuation_ne hc (by decide))
  | string k _ ih => exact (balanced_quote k).append ih
  | token hv _ ih => exact (balanced_token hv).append ih
  | @bare k s hk _ ih =>
    have hkey := balanced_tomlKey k
    rw [tomlKey, if_pos hk] at hkey
    exact hkey.append ih

/-- Such a text has no control characters. -/
theorem Pieces.printable (h : Pieces a) :
  ∀ c ∈ a, 0x20 ≤ c.toNat
  := by
  induction h with
  | nil => exact forall_mem_nil _
  | punctuation hc _ ih =>
    simp only [isPunctuation, Bool.or_eq_true, decide_eq_true_eq] at hc
    rw [forall_mem_cons]
    refine ⟨?_, ih⟩
    rcases hc with (((((rfl | rfl) | rfl) | rfl) | rfl) | rfl) | rfl <;> decide
  | string k _ ih => exact forall_mem_append.mpr ⟨quote_printable k, ih⟩
  | @token v s hv _ ih =>
    rw [forall_mem_append]
    refine ⟨?_, ih⟩
    rw [tomlValue_eq_stringify hv]
    exact stringify_printable (reread v)
  | @bare k s hk _ ih =>
  rw [forall_mem_append]
  refine ⟨?_, ih⟩
  intro c hc
  have hchar := (bare_iff.mp hk).2 c hc
  by_contra hlt
  simp only [isBareChar, Bool.or_eq_true, decide_eq_true_eq] at hchar
  rcases hchar with (halpha | rfl) | rfl
  · have hrange := toNat_of_isAlphanum halpha
    omega
  all_goals exact hlt (by decide)

theorem pieces_pairLine (m : String × Json) :
  Pieces (pairLine m)
  := by
  rw [pairLine, ← append_nil (tomlValue m.2)]
  exact .key _ (.punctuation rfl (.punctuation rfl (.punctuation rfl (pieces_tomlValue _ .nil))))

/-- A line that is written has no comment. -/
theorem Balanced.stripComment_eq (h : Balanced a) :
  stripComment a = a
  := by
  have hstrip := h []
  rw [append_nil] at hstrip
  rw [stripComment, hstrip]
  exact append_nil a

/-! ### The ends of a line -/

theorem trim_eq {line t : List Char} {d : Char} (hs : line = c :: s)
    (ht : line = t ++ [d]) (hc : Ecma.isSpace c = false) (hd : Ecma.isSpace d = false) :
  trim line = line
  := by
  have hfirst : line.dropWhile Ecma.isSpace = line := by
    rw [hs, dropWhile_cons, hc]
    rfl
  rw [trim, hfirst, ht, reverse_append, reverse_singleton, singleton_append, dropWhile_cons, hd]
  simp

theorem exists_last (hs : ∃ t, s = t ++ [c]) :
  ∃ t, a ++ s = t ++ [c]
  := by
  obtain ⟨t, rfl⟩ := hs
  exact ⟨a ++ t, (append_assoc a t [c]).symm⟩

/-- The text of a value ends with no white space. -/
theorem tomlValue_last (v : Json) :
  ∃ c, Ecma.isSpace c = false ∧ ∃ t, tomlValue v = t ++ [c]
  := by
  cases htoken : isToken v with
  | true =>
    obtain ⟨c, t, hc, -⟩ := token_head htoken
    have hne : tomlValue v ≠ [] := by simp [hc]
    use (tomlValue v).getLast hne
    constructor
    · exact isSpace_of_isTokenChar (isTokenChar_of_mem htoken _ (getLast_mem hne))
    · exact ⟨_, (dropLast_append_getLast hne).symm⟩
  | false =>
  cases v with
  | null | bool | num => cases htoken
  | str k =>
    refine ⟨'"', by decide, '"' :: k.toList.flatMap quoteChar, ?_⟩
    simp only [tomlValue, stringify, quote, cons_append]
  | arr xs =>
    refine ⟨']', by decide, '[' :: [',', ' '].intercalate (tomlElements xs), ?_⟩
    rw [tomlValue, cons_append]
  | obj ms =>
  cases ms with
  | nil => exact ⟨'\x7d', by decide, ['\x7b'], by rw [tomlValue]; rfl⟩
  | cons m ms =>
  refine ⟨'\x7d', by decide,
    '\x7b' :: ' ' :: ([',', ' '].intercalate (tomlMembers (m :: ms)) ++ [' ']), ?_⟩
  rw [tomlValue.eq_3 _ (by simp)]
  simp

theorem trim_pairLine (m : String × Json) :
  trim (pairLine m) = pairLine m
  := by
  obtain ⟨c, s, hc, hspace, -⟩ := tomlKey_head m.1
  obtain ⟨d, hd, hlast⟩ := tomlValue_last m.2
  obtain ⟨t, ht⟩ : ∃ t, pairLine m = t ++ [d] :=
    exists_last (exists_last (a := [' ', '=', ' ']) hlast)
  have hfirst : pairLine m = c :: (s ++ ' ' :: '=' :: ' ' :: tomlValue m.2) := by
    rw [pairLine, hc, cons_append]
  exact trim_eq hfirst ht hspace hd

/-! ### Pairs -/

/-- A key with its escapes as they were written. -/
def keyRead (k : String) : String :=
  if bare k then k else String.ofList (k.toList.flatMap quoteChar)

theorem isKeyChar_of_isBareChar (h : isBareChar c) :
  isKeyChar c
  := by
  simp only [isBareChar, Bool.or_eq_true, decide_eq_true_eq] at h
  simp only [isKeyChar, Bool.or_eq_true, decide_eq_true_eq]
  rcases h with (h | h) | h <;> simp [h]

/-- A character of escapes, but for the quote. -/
def isEscapeChar (c : Char) : Bool :=
  ['\\', 'b', 'f', 'n', 'r', 't', 'u'].contains c || (List.range 16).any fun n => c = hexDigit n

/-- What is written for a character has no other one, but for those of escapes. -/
theorem notMem_quoteChar {d : Char} (h : c ≠ d) (hd : isEscapeChar d = false) :
  d ∉ quoteChar c
  := by
  obtain ⟨hnames, hdig⟩ := Bool.or_eq_false_iff.mp hd
  have hdigit : ∀ n, d ≠ hexDigit n := by
    rintro n rfl
    rw [any_eq_false] at hdig
    apply hdig (n % 16) (mem_range.mpr (Nat.mod_lt n (by decide)))
    simp [hexDigit]
  simp only [contains_eq_mem, decide_eq_false_iff_not, mem_cons, not_mem_nil,
    or_false, not_or] at hnames
  obtain ⟨hslash, hb, hf, hn, hr, ht, hu⟩ := hnames
  have hpair : ∀ e, d ≠ e → d ∉ ['\\', e] := by
    intro e he
    simp [hslash, he]
  rw [quoteChar]
  split_ifs with h₁ h₂ h₃ h₄ h₅ h₆ h₇ h₈
  · exact hpair _ (h₁ ▸ Ne.symm h)
  · exact hpair _ hslash
  · exact hpair _ hb
  · exact hpair _ hf
  · exact hpair _ hn
  · exact hpair _ hr
  · exact hpair _ ht
  · simp only [hex4, mem_cons, not_mem_nil, or_false, not_or]
    exact ⟨hslash, hu, hdigit _, hdigit _, hdigit _, hdigit _⟩
  · simp only [mem_singleton]
    exact Ne.symm h

theorem upTo_append {quote : Char} (h : quote ∉ a) :
  upTo quote (a ++ quote :: s) = some (a, s)
  := by
  have ha : ∀ c ∈ a, decide (c ≠ quote) := by
    intro c hc
    exact decide_eq_true (ne_of_mem_of_not_mem hc h)
  have hread := takeWhile_dropWhile (s := quote :: s) ha (by simp)
  rw [upTo, if_pos (mem_append_right a mem_cons_self), hread.1, hread.2]
  rfl

/-- The key of a pair is read, with its escapes. -/
theorem keyOf_tomlKey {k : String} (h : '"' ∉ k.toList) (s : List Char) :
  keyOf (tomlKey k ++ ' ' :: s) = some ((keyRead k).toList, ' ' :: s)
  := by
  rw [tomlKey, keyRead]
  split_ifs with hbare
  · obtain ⟨hne, hall⟩ := bare_iff.mp hbare
    have hread := takeWhile_dropWhile (p := isKeyChar) (s := ' ' :: s)
      (fun c hc => isKeyChar_of_isBareChar (hall c hc)) (by
        intro c hc
        cases hc
        decide)
    obtain ⟨c, t, hk⟩ := exists_cons_of_ne_nil hne
    have hc : isBareChar c = true := by
      apply hall
      rw [hk]
      exact mem_cons_self
    rw [hk, cons_append] at hread ⊢
    rw [keyOf]
    · rw [hread.1, hread.2]
    all_goals
      rintro s' heq
      exact absurd (List.cons.inj heq).1 (ne_of_isBareChar hc (by decide))
  rw [quote, cons_append, append_assoc, singleton_append, keyOf, upTo_append, String.toList_ofList]
  simp only [mem_flatMap, not_exists, not_and]
  intro c hc
  apply notMem_quoteChar _ (by decide)
  rintro rfl
  exact h hc

/-- The text of a value is what is behind the equals sign. -/
theorem pairOf_of_keyOf {k : List Char} {line : List Char} {v : Json}
    (h : keyOf line = some (k, ' ' :: '=' :: ' ' :: tomlValue v)) :
  pairOf line =
    if Lines.Unbroken (tomlValue v) then some (k, tomlValue v) else none
  := by
  obtain ⟨c, t, hc, hspace, -⟩ := tomlValue_head v
  have hvalue : (' ' :: tomlValue v).dropWhile Ecma.isSpace = tomlValue v := by
    rw [hc]
    change (c :: t).dropWhile Ecma.isSpace = c :: t
    rw [dropWhile_cons, hspace]
    rfl
  have hne : tomlValue v ≠ [] := by simp [hc]
  rw [pairOf, h]
  change (let value := (' ' :: tomlValue v).dropWhile Ecma.isSpace
    if value ≠ [] ∧ Lines.Unbroken value then some (k, value) else none) = _
  rw [hvalue]
  simp [hne]

/-- A line of a pair is no header. -/
theorem headerOf_pairLine (m : String × Json) :
  headerOf (pairLine m) = none
  := by
  have hkey : ∃ c t, tomlKey m.1 = c :: t ∧ c ≠ '[' := by
    rw [tomlKey]
    split_ifs with hbare
    · obtain ⟨hne, hall⟩ := bare_iff.mp hbare
      obtain ⟨c, t, hk⟩ := exists_cons_of_ne_nil hne
      use c, t, hk
      apply ne_of_isBareChar (hall c _) (by decide)
      rw [hk]
      exact mem_cons_self
    · exact ⟨'"', m.1.toList.flatMap quoteChar ++ ['"'], rfl, by decide⟩
  obtain ⟨c, t, hc, hne⟩ := hkey
  rw [pairLine, hc, cons_append, headerOf]
  rintro s heq
  exact hne (List.cons.inj heq).1

/-- What a pair is read as, if it is read. -/
theorem readLine_pairLine {m : String × Json} (hkey : '"' ∉ m.1.toList) (hm : Ordered m.2) :
  readLine (pairLine m) =
    if Lines.Unbroken (tomlValue m.2) then .ok (.pair (keyRead m.1) (reread m.2))
    else .error ⟨"config_toml_invalid", "Invalid TOML line: " ++ String.ofList (pairLine m)⟩
  := by
  obtain ⟨c, t, hc, -⟩ := tomlKey_head m.1
  have hline : ∃ r, pairLine m = c :: r := ⟨_, by rw [pairLine, hc, cons_append]⟩
  obtain ⟨r, hr⟩ := hline
  have hpair : pairOf (pairLine m) =
      if Lines.Unbroken (tomlValue m.2) then some ((keyRead m.1).toList, tomlValue m.2)
      else none :=
    pairOf_of_keyOf (keyOf_tomlKey hkey _)
  rw [readLine, (pieces_pairLine m).balanced.stripComment_eq, trim_pairLine]
  split
  · rename_i heq
    rw [hr] at heq
    cases heq
  rw [headerOf_pairLine]
  dsimp only
  rw [hpair]
  split_ifs with hwhole
  · dsimp only
    rw [parseTomlValue_tomlValue hm]
    dsimp only
    rw [String.ofList_toList]
  · rfl

/-! ### Headers -/

/-- The names of a header as they are read: with their quotes, if they were written in quotes. -/
def headerNames (path : String) : List String :=
  (segments path).map fun name => String.ofList (tomlKey name)

/-- There is no dot in a name of a path. -/
theorem dot_notMem_of_mem_segments {path name : String} (h : name ∈ segments path) :
  '.' ∉ name.toList
  := by
  obtain ⟨part, hpart, rfl⟩ := mem_map.mp h
  rw [String.toList_ofList]
  exact Splitting.notMem_of_mem_splitOn hpart

theorem dot_notMem_tomlKey {name : String} (h : '.' ∉ name.toList) :
  '.' ∉ tomlKey name
  := by
  rw [tomlKey]
  split_ifs
  · exact h
  simp only [quote, mem_cons, mem_append, mem_flatMap, mem_singleton, not_or, not_exists, not_and]
  refine ⟨by decide, ?_, by decide, by simp⟩
  intro c hc
  apply notMem_quoteChar _ (by decide)
  rintro rfl
  exact h hc

/-- The path of a table is written name by name. -/
theorem tomlSectionPath_eq (path : String) :
  tomlSectionPath path = ['.'].intercalate ((segments path).map tomlKey)
  := by
  rw [tomlSectionPath]
  split_ifs with hbare
  · have hnames : (segments path).map tomlKey = path.toList.splitOn '.' := by
      rw [segments, map_map] at *
      have hall := all_eq_true.mp hbare
      have hmap : (path.toList.splitOn '.').map (tomlKey ∘ String.ofList) =
          (path.toList.splitOn '.').map id := by
        apply map_congr_left
        intro part hpart
        rw [Function.comp_apply, tomlKey, if_pos (hall _ (mem_map_of_mem hpart)),
          String.toList_ofList]
        rfl
      rw [hmap, map_id]
    rw [hnames, intercalate_splitOn]
  · rfl

/-- The names that are read in a header. -/
theorem splitOn_tomlSectionPath (path : String) :
  ((tomlSectionPath path).splitOn '.').map String.ofList = headerNames path
  := by
  rw [tomlSectionPath_eq, splitOn_intercalate, headerNames, map_map]
  · rfl
  · intro part hpart
    obtain ⟨name, hname, rfl⟩ := mem_map.mp hpart
    exact dot_notMem_tomlKey (dot_notMem_of_mem_segments hname)
  · simpa using segments_ne_nil path

theorem pieces_tomlSectionPath (path : String) :
  Balanced (tomlSectionPath path) ∧ ∀ c ∈ tomlSectionPath path, 0x20 ≤ c.toNat
  := by
  rw [tomlSectionPath_eq]
  generalize segments path = names
  induction names with
  | nil => exact ⟨balanced_nil, forall_mem_nil _⟩
  | cons name names ih =>
  have hkey : Pieces (tomlKey name) := by
    rw [← append_nil (tomlKey name)]
    exact .key name .nil
  cases names with
  | nil =>
    simp only [map_cons, map_nil, List.intercalate, List.intersperse,
      flatten_cons, flatten_nil, append_nil]
    exact ⟨hkey.balanced, hkey.printable⟩
  | cons name' names =>
  rw [map_cons, map_cons, Splitting.intercalate_cons_cons]
  constructor
  · exact hkey.balanced.append (ih.1.cons (by decide) (by decide) (by decide))
  rw [forall_mem_append]
  refine ⟨hkey.printable, ?_⟩
  rw [singleton_append, forall_mem_cons]
  exact ⟨by decide, ih.2⟩

theorem tomlSectionPath_ne_nil (path : String) :
  tomlSectionPath path ≠ []
  := by
  obtain ⟨name, names, hnames⟩ := exists_cons_of_ne_nil (segments_ne_nil path)
  obtain ⟨c, t, hc, -⟩ := tomlKey_head name
  rw [tomlSectionPath_eq, hnames, map_cons, hc]
  cases names with
  | nil => simp [List.intercalate]
  | cons name' names => simp [Splitting.intercalate_cons_cons]

/-- The line of a header. -/
def headerLine (path : String) : List Char :=
  '[' :: (tomlSectionPath path ++ [']'])

theorem balanced_headerLine (path : String) :
  Balanced (headerLine path)
  := by
  have hclose : Balanced [']'] := balanced_nil.cons (by decide) (by decide) (by decide)
  exact ((pieces_tomlSectionPath path).1.append hclose).cons (by decide) (by decide) (by decide)

/-- A header is read, unless there is a closing bracket in it. -/
theorem readLine_header {path : String} (h : ']' ∉ tomlSectionPath path) :
  readLine (headerLine path) = .ok (.header (headerNames path))
  := by
  have htrim : trim (headerLine path) = headerLine path :=
    trim_eq (t := '[' :: tomlSectionPath path) rfl (by simp [headerLine]) (by decide : Ecma.isSpace '[' = false)
      (by decide : Ecma.isSpace ']' = false)
  have hheader : headerOf (headerLine path) = some (tomlSectionPath path) := by
    rw [headerLine, headerOf, dropLast_concat, List.getLast?_concat,
      if_pos ⟨rfl, tomlSectionPath_ne_nil path, h⟩]
  rw [readLine, (balanced_headerLine path).stripComment_eq, htrim]
  split
  · next heq => cases heq
  · rw [hheader]
    dsimp only
    rw [splitOn_tomlSectionPath]

/-- Where a header is read at all, it is read so. -/
theorem readLine_headerLine {path : String} {l : Line} (h : readLine (headerLine path) = .ok l) :
  l = .header (headerNames path)
  := by
  by_cases hclose : ']' ∈ tomlSectionPath path
  · -- With a bracket in it the line is no header, and it is no pair either.
    have htrim : trim (headerLine path) = headerLine path :=
      trim_eq (t := '[' :: tomlSectionPath path) rfl (by simp [headerLine]) (by decide : Ecma.isSpace '[' = false)
        (by decide : Ecma.isSpace ']' = false)
    have hheader : headerOf (headerLine path) = none := by
      rw [headerLine, headerOf, dropLast_concat, List.getLast?_concat, if_neg]
      exact fun hall => hall.2.2 hclose
    have hpair : pairOf (headerLine path) = none := by
      rw [headerLine, pairOf]
      rfl
    rw [readLine, (balanced_headerLine path).stripComment_eq, htrim] at h
    split at h
    · next heq => cases heq
    rw [hheader] at h
    dsimp only at h
    rw [hpair] at h
    cases h
  · rw [readLine_header hclose] at h
    exact (Except.ok.inj h).symm

end Config.Toml
