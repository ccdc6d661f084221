import VolundCode.Config.TomlLines

/-!
# Quotes in keys

A pair with a quote in its key is not read (`readLine_quote`). The pattern for a key stops at the
quote, so that everything behind it is read inside out: what was written inside of strings is taken
to be outside of them. The reader of a value that stands inside of a string stands inside of a
string behind it, whatever the value is, but at the end of the line it would have to stand outside.
-/

namespace Config.Toml

open Json List Option

/-! ### Inside and outside of strings -/

/-- A text that begins inside of a string that was written, or outside of all of them. -/
inductive Within : Bool → List Char → Prop where
  | ended : Within false []
  | plain {c : Char} {s : List Char} (hquote : c ≠ '"') (hslash : c ≠ '\\') (hlit : c ≠ '\x27')
    (hs : Within false s) : Within false (c :: s)
  | opened {s : List Char} (hs : Within true s) : Within false ('"' :: s)
  | char (c : Char) {s : List Char} (hs : Within true s) : Within true (quoteChar c ++ s)
  | closed {s : List Char} (hs : Within false s) : Within true ('"' :: s)

namespace Within

theorem chars (cs : List Char) {s : List Char} (hs : Within true s) :
  Within true (cs.flatMap quoteChar ++ s)
  := by
  induction cs with
  | nil => exact hs
  | cons c cs ih =>
    rw [flatMap_cons, append_assoc]
    exact .char c ih

/-- What has neither quotes nor backslashes is outside. -/
theorem plains {a s : List Char} (h : ∀ c ∈ a, c ≠ '"' ∧ c ≠ '\\' ∧ c ≠ '\x27')
    (hs : Within false s) :
  Within false (a ++ s)
  := by
  induction a with
  | nil => exact hs
  | cons c a ih =>
    obtain ⟨hquote, hslash, hlit⟩ := h c mem_cons_self
    exact .plain hquote hslash hlit (ih fun d hd => h d (mem_cons_of_mem c hd))

end Within

/-- The text of a value begins outside. -/
theorem Pieces.within {a : List Char} (h : Pieces a) :
  Within false a
  := by
  induction h with
  | nil => exact .ended
  | punctuation hc _ ih =>
    exact .plain (isPunctuation_ne hc (by decide)) (isPunctuation_ne hc (by decide))
      (isPunctuation_ne hc (by decide)) ih
  | string k _ ih =>
    rw [quote, cons_append, append_assoc, singleton_append]
    exact .opened (.chars _ (.closed ih))
  | token hv _ ih =>
    apply Within.plains _ ih
    intro c hc
    have hchar := isTokenChar_of_mem hv c hc
    exact ⟨isTokenChar_ne hchar (by decide), isTokenChar_ne hchar (by decide),
      isTokenChar_ne hchar (by decide)⟩
  | bare hk _ ih =>
  apply Within.plains _ ih
  intro c hc
  have hchar := (bare_iff.mp hk).2 c hc
  exact ⟨ne_of_isBareChar hchar (by decide), ne_of_isBareChar hchar (by decide),
    ne_of_isBareChar hchar (by decide)⟩

/-- What is written for a character begins with a backslash or is the character. -/
theorem quoteChar_cases (c : Char) :
  (∃ d t, quoteChar c = '\\' :: d :: t) ∨ quoteChar c = [c] ∧ c ≠ '"' ∧ c ≠ '\\'
  := by
  rw [quoteChar]
  split_ifs with h₁ h₂
  · exact Or.inl ⟨_, _, rfl⟩
  · exact Or.inl ⟨_, _, rfl⟩
  · exact Or.inl ⟨_, _, rfl⟩
  · exact Or.inl ⟨_, _, rfl⟩
  · exact Or.inl ⟨_, _, rfl⟩
  · exact Or.inl ⟨_, _, rfl⟩
  · exact Or.inl ⟨_, _, rfl⟩
  · exact Or.inl ⟨_, _, rfl⟩
  · exact Or.inr ⟨rfl, h₁, h₂⟩

namespace Within

variable {s t : List Char}

theorem ne_nil (h : Within true s) :
  s ≠ []
  := by
  cases h with
  | @char c s hs =>
    rcases quoteChar_cases c with ⟨d, t, hc⟩ | ⟨hc, -⟩ <;> simp [hc]
  | closed hs => exact cons_ne_nil _ _

/-- Behind a character of a string that needs no escape one is still inside. -/
theorem tail {c : Char} (h : Within true (c :: s)) (hquote : c ≠ '"') (hslash : c ≠ '\\') :
  Within true s
  := by
  generalize htext : c :: s = text at h
  cases h with
  | @char d r hr =>
    rcases quoteChar_cases d with ⟨e, t, hd⟩ | ⟨hd, -⟩
    · rw [hd, cons_append] at htext
      exact absurd (List.cons.inj htext).1 hslash
    · rw [hd, singleton_append] at htext
      rw [(List.cons.inj htext).2]
      exact hr
  | closed hr => exact absurd (List.cons.inj htext).1 hquote

/-- Behind a quote one is outside. -/
theorem close (h : Within true ('"' :: s)) :
  Within false s
  := by
  generalize htext : '"' :: s = text at h
  cases h with
  | @char d r hr =>
    rcases quoteChar_cases d with ⟨e, t, hd⟩ | ⟨hd, hne, -⟩
    · rw [hd, cons_append] at htext
      exact absurd (List.cons.inj htext).1 (by decide)
    · rw [hd, singleton_append] at htext
      exact absurd (List.cons.inj htext).1.symm hne
  | closed hr =>
    rw [(List.cons.inj htext).2]
    exact hr

/-- Behind characters that need no escape one is still inside. -/
theorem drop {a : List Char} (h : Within true (a ++ s)) (ha : ∀ c ∈ a, c ≠ '"' ∧ c ≠ '\\') :
  Within true s
  := by
  induction a with
  | nil => exact h
  | cons c a ih =>
    obtain ⟨hquote, hslash⟩ := ha c mem_cons_self
    exact ih (h.tail hquote hslash) fun d hd => ha d (mem_cons_of_mem c hd)

theorem dropWhile {p : Char → Bool} (h : Within true s) (hquote : p '"' = false)
    (hslash : p '\\' = false) :
  Within true (s.dropWhile p)
  := by
  rw [← takeWhile_append_dropWhile (p := p) (l := s)] at h
  apply h.drop
  intro c hc
  have hp := mem_takeWhile_imp hc
  constructor
  · rintro rfl
    rw [hp] at hquote
    cases hquote
  · rintro rfl
    rw [hp] at hslash
    cases hslash

theorem skip (h : Within true s) :
  Within true (skipTomlSeparators s)
  := h.dropWhile (by decide) (by decide)

theorem skipWs (h : Within true s) :
  Within true (Json.skipWs s)
  := h.dropWhile (by decide) (by decide)

/-- A string that is closed from outside is left inside. -/
theorem closeBasic {body : List Char} (h : Within false s)
    (hclose : Toml.closeBasic s = some (body, t)) :
  Within true t
  := by
  generalize hb : false = b at h
  induction h generalizing body with
  | ended => cases hclose
  | @plain c s hquote hslash hlit hs ih =>
    rw [closeBasic_cons hslash, if_neg hquote] at hclose
    obtain ⟨⟨body', t'⟩, hrest, heq⟩ := map_eq_some_iff.mp hclose
    obtain ⟨-, rfl⟩ := Prod.mk.inj heq
    exact ih hrest rfl
  | @opened s hs =>
    rw [closeBasic_cons (by decide), if_pos rfl] at hclose
    cases hclose
    exact hs
  | char | closed => cases hb

theorem parseChars {n : ℕ} {cs : List Char} (h : Within false s)
    (hread : Json.parseChars n s = some (cs, t)) :
  Within true t
  := by
  generalize hb : false = b at h
  induction h generalizing n cs with
  | ended => cases n <;> cases hread
  | @plain c s hquote hslash hlit hs ih =>
    cases n with
    | zero => cases hread
    | succ n =>
    rw [Json.parseChars] at hread
    dsimp only at hread
    rw [if_neg hquote, if_neg hslash] at hread
    split_ifs at hread
    obtain ⟨⟨cs', t'⟩, hrest, heq⟩ := map_eq_some_iff.mp hread
    obtain ⟨-, rfl⟩ := Prod.mk.inj heq
    exact ih hrest rfl
  | @opened s hs =>
    cases n with
    | zero => cases hread
    | succ n =>
    rw [Json.parseChars] at hread
    dsimp only at hread
    rw [if_pos rfl] at hread
    cases hread
    exact hs
  | char | closed => cases hb

/-- Behind a single quote one is inside, since there are none outside. -/
theorem literal {b : Bool} (h : Within b s) (hmem : '\x27' ∈ s) :
  Within true (s.dropWhile (· ≠ '\x27')).tail
  := by
  induction h with
  | ended => cases hmem
  | @plain c s hquote hslash hlit hs ih =>
    rw [dropWhile_cons, if_pos (decide_eq_true hlit)]
    apply ih
    exact (mem_cons.mp hmem).resolve_left (Ne.symm hlit)
  | @opened s hs ih =>
    rw [dropWhile_cons, if_pos (by decide)]
    apply ih
    exact (mem_cons.mp hmem).resolve_left (by decide)
  | @char c s hs ih =>
    by_cases hc : '\x27' ∈ quoteChar c
    · have hlit : c = '\x27' := by
        by_contra hne
        exact absurd hc (notMem_quoteChar hne (by decide))
      rw [hlit]
      exact hs
    rw [dropWhile_append_of_pos]
    · apply ih
      exact (mem_append.mp hmem).resolve_left hc
    · intro d hd
      apply decide_eq_true
      exact ne_of_mem_of_not_mem hd hc
  | @closed s hs ih =>
    rw [dropWhile_cons, if_pos (by decide)]
    apply ih
    exact (mem_cons.mp hmem).resolve_left (by decide)

end Within

/-! ### Readers that begin inside -/

theorem isNumberChar_ne {c d : Char} (h : Decimal.isNumberChar c)
    (hd : Decimal.isNumberChar d = false) :
  c ≠ d
  := by
  rintro rfl
  rw [h] at hd
  cases hd

variable {s t : List Char}

/-- Behind a number one is still inside. -/
theorem Within.number (h : Within true s) (hread : Decimal.ReadsOver s t) :
  Within true t
  := by
  obtain ⟨a, rfl, ha⟩ := hread
  apply h.drop
  exact fun c hc => ⟨isNumberChar_ne (ha c hc) (by decide), isNumberChar_ne (ha c hc) (by decide)⟩

/-- Behind a name one is still inside. -/
theorem Within.name {a : List Char} (h : Within true (a ++ s))
    (ha : (a.all fun c => c ≠ '"' && c ≠ '\\') = true) :
  Within true s
  := by
  apply h.drop
  intro c hc
  have hchar := all_eq_true.mp ha c hc
  simpa using hchar

/-- The readers of JSON at a depth end inside, if they begin inside. -/
structure StaysWithin (n : ℕ) : Prop where
  value : ∀ s v t, Within true s → parseValue n s = some (v, t) → Within true t
  elements : ∀ xs s v t, Within true s → parseElements n xs s = some (v, t) → Within true t
  members : ∀ ms s v t, Within true s → parseMembers n ms s = some (v, t) → Within true t

variable {k : String}

theorem within_parseString (h : Within true ('"' :: s)) (hread : parseString s = some (k, t)) :
  Within true t
  := by
  obtain ⟨⟨cs, t'⟩, hchars, heq⟩ := map_eq_some_iff.mp hread
  obtain ⟨-, rfl⟩ := Prod.mk.inj heq
  exact h.close.parseChars hchars

variable {n : ℕ} {v : Json}

theorem staysWithin_value (hn : StaysWithin n)
    (h : Within true s) (hread : parseValue (n + 1) s = some (v, t)) :
  Within true t
  := by
  have hskip := h.skipWs
  rw [parseValue] at hread
  split at hread
  · rename_i heq
    rw [heq] at hskip
    obtain ⟨⟨k, t'⟩, hstring, hpair⟩ := map_eq_some_iff.mp hread
    obtain ⟨-, rfl⟩ := Prod.mk.inj hpair
    exact within_parseString hskip hstring
  · rename_i heq
    rw [heq] at hskip
    have hrest := (hskip.tail (by decide) (by decide)).skipWs
    split at hread
    · rename_i hclose
      rw [hclose] at hrest
      cases hread
      exact hrest.tail (by decide) (by decide)
    · exact hn.members _ _ _ _ hrest hread
  · rename_i heq
    rw [heq] at hskip
    have hrest := (hskip.tail (by decide) (by decide)).skipWs
    split at hread
    · rename_i hclose
      rw [hclose] at hrest
      cases hread
      exact hrest.tail (by decide) (by decide)
    · exact hn.elements _ _ _ _ hrest hread
  · rename_i heq
    rw [heq] at hskip
    cases hread
    exact hskip.name (a := ['t', 'r', 'u', 'e']) (by decide)
  · rename_i heq
    rw [heq] at hskip
    cases hread
    exact hskip.name (a := ['f', 'a', 'l', 's', 'e']) (by decide)
  · rename_i heq
    rw [heq] at hskip
    cases hread
    exact hskip.name (a := ['n', 'u', 'l', 'l']) (by decide)
  · obtain ⟨⟨d, t'⟩, hscan, hpair⟩ := map_eq_some_iff.mp hread
    obtain ⟨-, rfl⟩ := Prod.mk.inj hpair
    exact hskip.number (Decimal.readsOver_scan hscan)

theorem staysWithin_elements (hn : StaysWithin n) {xs : List Json}
    (h : Within true s) (hread : parseElements (n + 1) xs s = some (v, t)) :
  Within true t
  := by
  rw [parseElements] at hread
  split at hread
  · cases hread
  rename_i hx
  have hrest := (hn.value _ _ _ h hx).skipWs
  split at hread
  · rename_i heq
    rw [heq] at hrest
    exact hn.elements _ _ _ _ (hrest.tail (by decide) (by decide)) hread
  · rename_i heq
    rw [heq] at hrest
    cases hread
    exact hrest.tail (by decide) (by decide)
  · cases hread

theorem staysWithin_members (hn : StaysWithin n) {ms : List (String × Json)} (h : Within true s)
    (hread : parseMembers (n + 1) ms s = some (v, t)) :
  Within true t
  := by
  have hskip := h.skipWs
  rw [parseMembers] at hread
  split at hread
  · rename_i heq
    rw [heq] at hskip
    split at hread
    · cases hread
    rename_i hstring
    have hcolon := (within_parseString hskip hstring).skipWs
    split at hread
    · rename_i heq
      rw [heq] at hcolon
      split at hread
      · cases hread
      rename_i hx
      have hrest := (hn.value _ _ _ (hcolon.tail (by decide) (by decide)) hx).skipWs
      split at hread
      · rename_i heq
        rw [heq] at hrest
        exact hn.members _ _ _ _ (hrest.tail (by decide) (by decide)) hread
      · rename_i heq
        rw [heq] at hrest
        cases hread
        exact hrest.tail (by decide) (by decide)
      · cases hread
    · cases hread
  · cases hread

theorem staysWithin (n : ℕ) :
  StaysWithin n
  := by
  induction n with
  | zero =>
    constructor
    · intro s v t _ h
      cases h
    · intro xs s v t _ h
      cases h
    · intro ms s v t _ h
      cases h
  | succ n ih =>
  constructor
  · intro s v t
    exact staysWithin_value ih
  · intro xs s v t
    exact staysWithin_elements ih
  · intro ms s v t
    exact staysWithin_members ih

/-- A text that begins inside is not JSON. -/
theorem parse_of_within (h : Within true s) :
  parse s = none
  := by
  rw [parse]
  split
  · rfl
  · next v t hread => exact if_neg ((staysWithin _).value _ _ _ h hread).skipWs.ne_nil

/-- A token that is JSON has no quotes and no backslashes. -/
theorem forall_of_parse {c : Char} {s : List Char} {v : Json} (h : parse (c :: s) = some v)
    (hws : isWs c = false) (hquote : c ≠ '"') (hbracket : c ≠ '[') (hbrace : c ≠ '\x7b') :
  ∀ d ∈ c :: s, d ≠ '"' ∧ d ≠ '\\'
  := by
  -- What the reader of a value leaves is white space.
  have hspace : ∀ t, skipWs t = [] → ∀ d ∈ t, d ≠ '"' ∧ d ≠ '\\' := by
    intro t ht d hd
    have hall := dropWhile_eq_nil_iff.mp ht d hd
    constructor
    all_goals
      rintro rfl
      exact absurd hall (by decide)
  have hname : ∀ a t, (a.all fun c => c ≠ '"' && c ≠ '\\') = true → skipWs t = [] →
      ∀ d ∈ a ++ t, d ≠ '"' ∧ d ≠ '\\' := by
    intro a t ha ht
    rw [forall_mem_append]
    refine ⟨?_, hspace t ht⟩
    intro d hd
    have hchar := all_eq_true.mp ha d hd
    simpa using hchar
  rw [parse] at h
  split at h
  · cases h
  rename_i w t hread
  split_ifs at h with hend
  rw [parseValue, skipWs_of_not_isWs hws] at hread
  split at hread
  · next heq => exact absurd (List.cons.inj heq).1 hquote
  · next heq => exact absurd (List.cons.inj heq).1 hbrace
  · next heq => exact absurd (List.cons.inj heq).1 hbracket
  · rename_i heq
    cases hread
    rw [heq]
    exact hname ['t', 'r', 'u', 'e'] _ (by decide) hend
  · rename_i heq
    cases hread
    rw [heq]
    exact hname ['f', 'a', 'l', 's', 'e'] _ (by decide) hend
  · rename_i heq
    cases hread
    rw [heq]
    exact hname ['n', 'u', 'l', 'l'] _ (by decide) hend
  obtain ⟨⟨d, t'⟩, hscan, hpair⟩ := Option.map_eq_some_iff.mp hread
  obtain ⟨-, rfl⟩ := Prod.mk.inj hpair
  obtain ⟨a, heq, ha⟩ := Decimal.readsOver_scan hscan
  rw [heq, forall_mem_append]
  refine ⟨?_, hspace _ hend⟩
  exact fun d hd =>
    ⟨isNumberChar_ne (ha d hd) (by decide), isNumberChar_ne (ha d hd) (by decide)⟩

/-- The readers of inline values at a depth end inside, if they begin inside. -/
structure ScansWithin (n : ℕ) : Prop where
  value : ∀ s v t, Within true s → scanTomlValue n s = some (v, t) → Within true t
  elements : ∀ xs s v t, Within true s → scanTomlArray n xs s = some (v, t) → Within true t
  members : ∀ ms s v t, Within true s → scanTomlInlineTable n ms s = some (v, t) → Within true t

theorem within_scanTomlString (h : Within true s) (hread : scanTomlString s = some (k, t)) :
  Within true t
  := by
  rw [scanTomlString.eq_def] at hread
  split at hread
  · split_ifs at hread with hmem
    cases hread
    exact (h.tail (by decide) (by decide)).literal hmem
  · split at hread
    · cases hread
    rename_i hclose
    split at hread
    · cases hread
      exact h.close.closeBasic hclose
    · cases hread
  · cases hread

theorem within_scanTomlKey (h : Within true s) (hread : scanTomlKey s = some (k, t)) :
  Within true t
  := by
  have hskip := h.skip
  rw [scanTomlKey] at hread
  split at hread
  · rename_i heq
    rw [heq] at hskip
    exact within_scanTomlString hskip hread
  · rename_i heq
    rw [heq] at hskip
    exact within_scanTomlString hskip hread
  split at hread
  · cases hread
  · cases hread
    exact hskip.dropWhile (by decide) (by decide)

/-- Behind a token one is still inside. -/
theorem within_token {c : Char} {s : List Char} {v : Json} (h : Within true (c :: s))
    (hspace : Ecma.isSpace c = false) (hquote : c ≠ '"') (hbracket : c ≠ '[') (hbrace : c ≠ '\x7b')
    (hread : parse ((c :: s).takeWhile fun c => !endsToken c) = some v) :
  Within true ((c :: s).dropWhile fun c => !endsToken c)
  := by
  have hws : isWs c = false := by
    by_contra hne
    simp only [isWs, Bool.not_eq_false, Bool.or_eq_true, decide_eq_true_eq] at hne
    rcases hne with ((rfl | rfl) | rfl) | rfl <;> exact absurd hspace (by decide)
  cases hend : endsToken c with
  | true =>
    rw [dropWhile_cons, hend]
    exact h
  | false =>
  have htoken : (c :: s).takeWhile (fun c => !endsToken c) =
      c :: s.takeWhile fun c => !endsToken c := by
    rw [takeWhile_cons, hend]
    rfl
  rw [← takeWhile_append_dropWhile (p := fun c => !endsToken c) (l := c :: s)] at h
  apply h.drop
  rw [htoken] at hread ⊢
  exact forall_of_parse hread hws hquote hbracket hbrace

theorem scansWithin_value (hn : ScansWithin n)
    (h : Within true s) (hread : scanTomlValue (n + 1) s = some (v, t)) :
  Within true t
  := by
  have hskip := h.skip
  rw [scanTomlValue] at hread
  split at hread
  · rename_i heq
    rw [heq] at hskip
    have hrest := (hskip.tail (by decide) (by decide)).skip
    split at hread
    · rename_i hclose
      rw [hclose] at hrest
      cases hread
      exact hrest.tail (by decide) (by decide)
    · exact hn.members _ _ _ _ hrest hread
  · rename_i heq
    rw [heq] at hskip
    have hrest := (hskip.tail (by decide) (by decide)).skip
    split at hread
    · rename_i hclose
      rw [hclose] at hrest
      cases hread
      exact hrest.tail (by decide) (by decide)
    · exact hn.elements _ _ _ _ hrest hread
  · rename_i heq
    rw [heq] at hskip
    obtain ⟨⟨k, t'⟩, hstring, hpair⟩ := map_eq_some_iff.mp hread
    obtain ⟨-, rfl⟩ := Prod.mk.inj hpair
    exact within_scanTomlString hskip hstring
  · rename_i heq
    rw [heq] at hskip
    obtain ⟨⟨k, t'⟩, hstring, hpair⟩ := map_eq_some_iff.mp hread
    obtain ⟨-, rfl⟩ := Prod.mk.inj hpair
    exact within_scanTomlString hskip hstring
  rename_i hbrace hbracket hquote _
  obtain ⟨w, hparse, hpair⟩ := map_eq_some_iff.mp hread
  obtain ⟨-, rfl⟩ := Prod.mk.inj hpair
  obtain ⟨c, r, hcons⟩ := exists_cons_of_ne_nil hskip.ne_nil
  have hspace : Ecma.isSpace c = false := by
    have hhead := List.head?_dropWhile_not Ecma.isSpace s
    rw [← skipTomlSeparators, hcons] at hhead
    simpa using hhead
  rw [hcons] at hskip hparse hbrace hbracket hquote ⊢
  apply within_token hskip hspace _ _ _ hparse
  · rintro rfl
    exact hquote r rfl
  · rintro rfl
    exact hbracket r rfl
  · rintro rfl
    exact hbrace r rfl

theorem scansWithin_elements (hn : ScansWithin n) {xs : List Json}
    (h : Within true s) (hread : scanTomlArray (n + 1) xs s = some (v, t)) :
  Within true t
  := by
  rw [scanTomlArray] at hread
  split at hread
  · cases hread
  rename_i hx
  have hrest := (hn.value _ _ _ h hx).skip
  split at hread
  · rename_i heq
    rw [heq] at hrest
    exact hn.elements _ _ _ _ (hrest.tail (by decide) (by decide)) hread
  · rename_i heq
    rw [heq] at hrest
    cases hread
    exact hrest.tail (by decide) (by decide)
  · cases hread

theorem scansWithin_members (hn : ScansWithin n) {ms : List (String × Json)} (h : Within true s)
    (hread : scanTomlInlineTable (n + 1) ms s = some (v, t)) :
  Within true t
  := by
  rw [scanTomlInlineTable] at hread
  split at hread
  · cases hread
  rename_i hkey
  have hequals := (within_scanTomlKey h hkey).skip
  split at hread
  · rename_i heq
    rw [heq] at hequals
    split at hread
    · cases hread
    rename_i hx
    have hrest := (hn.value _ _ _ (hequals.tail (by decide) (by decide)) hx).skip
    split at hread
    · rename_i heq
      rw [heq] at hrest
      exact hn.members _ _ _ _ (hrest.tail (by decide) (by decide)) hread
    · rename_i heq
      rw [heq] at hrest
      cases hread
      exact hrest.tail (by decide) (by decide)
    · cases hread
  · cases hread

theorem scansWithin (n : ℕ) :
  ScansWithin n
  := by
  induction n with
  | zero =>
    constructor
    · intro s v t _ h
      cases h
    · intro xs s v t _ h
      cases h
    · intro ms s v t _ h
      cases h
  | succ n ih =>
  constructor
  · intro s v t
    exact scansWithin_value ih
  · intro xs s v t
    exact scansWithin_elements ih
  · intro ms s v t
    exact scansWithin_members ih

/-- A text that begins inside is no value. -/
theorem parseTomlValue_of_within (h : Within true s) :
  parseTomlValue s = none
  := by
  rw [parseTomlValue, parse_of_within h]
  dsimp only
  split
  · rfl
  · next v t hread => exact if_neg ((scansWithin _).value _ _ _ h hread).skip.ne_nil

/-! ### A key with a quote -/

/-- The pattern for a key stops at the first quote in it. -/
theorem keyOf_quote (h : '"' ∈ k.toList) (hs : Within false s) :
  ∃ a r, keyOf (tomlKey k ++ s) = some (a, r) ∧ Within true r
  := by
  have hkey : tomlKey k = quote k := by
    rw [tomlKey, if_neg]
    intro hbare
    exact absurd ((bare_iff.mp hbare).2 '"' h) (by decide)
  obtain ⟨before, after, hsplit, hnot⟩ := eq_append_cons_of_mem h
  have htext : tomlKey k ++ s = '"' :: ((before.flatMap quoteChar ++ ['\\']) ++
        '"' :: (after.flatMap quoteChar ++ '"' :: s)) := by
    rw [hkey, quote, hsplit, flatMap_append, flatMap_cons]
    simp [quoteChar]
  have hpre : '"' ∉ before.flatMap quoteChar ++ ['\\'] := by
    simp only [mem_append, mem_flatMap, mem_singleton, not_or, not_exists, not_and]
    refine ⟨?_, by decide⟩
    intro c hc
    exact notMem_quoteChar (ne_of_mem_of_not_mem hc hnot) (by decide)
  use before.flatMap quoteChar ++ ['\\'], after.flatMap quoteChar ++ '"' :: s
  constructor
  · rw [htext, keyOf, upTo_append hpre]
  · exact .chars after (.closed hs)

/-- A pair with a quote in its key is not read. -/
theorem readLine_quote {m : String × Json} (h : '"' ∈ m.1.toList) (l : Line) :
  readLine (pairLine m) ≠ .ok l
  := by
  have hvalue : Within false (' ' :: '=' :: ' ' :: tomlValue m.2) := by
    have hpieces : Pieces (' ' :: '=' :: ' ' :: (tomlValue m.2 ++ [])) :=
      .punctuation rfl (.punctuation rfl (.punctuation rfl (pieces_tomlValue _ .nil)))
    rw [append_nil] at hpieces
    exact hpieces.within
  obtain ⟨a, r, hkey, hr⟩ := keyOf_quote h hvalue
  intro hread
  rw [readLine, (pieces_pairLine m).balanced.stripComment_eq, trim_pairLine] at hread
  split at hread
  · rename_i heq
    obtain ⟨c, t, hc, -⟩ := tomlKey_head m.1
    rw [pairLine, hc] at heq
    cases heq
  rw [headerOf_pairLine] at hread
  dsimp only at hread
  split at hread
  · cases hread
  rename_i key text hpair
  rw [pairOf, pairLine, hkey] at hpair
  dsimp only at hpair
  -- Whatever is taken for the value begins inside of a string.
  split at hpair
  · rename_i heq
    have hequals := hr.skip
    rw [skipTomlSeparators, heq] at hequals
    split_ifs at hpair
    cases hpair
    have hnone := parseTomlValue_of_within (hequals.tail (by decide) (by decide)).skip
    rw [skipTomlSeparators] at hnone
    rw [hnone] at hread
    cases hread
  · cases hpair

end Config.Toml
