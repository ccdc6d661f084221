import VolundCode.Lib.Ecma
import VolundCode.Lib.Json

/-!
# White space at line breaks in JSON

A text of JSON may be cut into lines between its tokens. The lines may then be trimmed, for what
stands next to a line break is outside of strings: the text keeps its meaning (`parse_spaced`,
`parse_trimmed`).
-/

namespace Json

open Ecma List

/-- The second text is the first one, where white space around line breaks has become one line
break, and has been dropped at the end. -/
inductive Spaced : List Char → List Char → Prop where
  | done {w : List Char} (hw : ∀ c ∈ w, isSpace c) : Spaced w []
  | char (c : Char) {s t : List Char} (h : Spaced s t) : Spaced (c :: s) (c :: t)
  | gap {w s t : List Char} (hw : ∀ c ∈ w, isSpace c) (hbreak : '\n' ∈ w)
      (h : Spaced s t) : Spaced (w ++ s) ('\n' :: t)

variable {t : List Char} {c : Char} {s : List Char}

/-- The two texts start with one character, or the first is at a gap. -/
theorem Spaced.head (h : Spaced (c :: s) t) (hc : isSpace c = false) :
  ∃ u, t = c :: u ∧ Spaced s u
  := by
  generalize hs : c :: s = cs at h
  cases h with
  | done hw =>
    have hspace := hw c (by rw [← hs]; exact mem_cons_self)
    rw [hc] at hspace
    cases hspace
  | char d h =>
    obtain ⟨rfl, rfl⟩ := List.cons.inj hs
    exact ⟨_, rfl, h⟩
  | gap hw hbreak h =>
  next w s' t' =>
    cases w with
    | nil => cases hbreak
    | cons d w =>
      obtain ⟨rfl, -⟩ := List.cons.inj hs
      rw [hw c mem_cons_self] at hc
      cases hc

/-- Where the first text is at a gap or at its end, the second is at a line break or at its end. -/
theorem Spaced.head_or (h : Spaced s t) :
  (∃ c s' t', s = c :: s' ∧ t = c :: t' ∧ Spaced s' t') ∨
    (∀ c ∈ s.head?, isSpace c) ∧ ∀ c ∈ t.head?, c = '\n'
  := by
  cases h with
  | done hw =>
    right
    constructor
    · intro c hc
      apply hw c (mem_of_head? hc)
    · intro c hc
      cases hc
  | char c h => exact Or.inl ⟨c, _, _, rfl, rfl, h⟩
  | gap hw hbreak h =>
  right
  constructor
  · intro c hc
    next w s t =>
      cases w with
      | nil => cases hbreak
      | cons d w =>
        cases hc
        apply hw _ mem_cons_self
  · intro c hc
    exact (Option.some.inj hc).symm

/-- What is read as long as characters of a kind come that are not white space. -/
theorem Spaced.dropWhile {p : Char → Bool} (hp : ∀ c, isSpace c → p c = false) (h : Spaced s t) :
  s.takeWhile p = t.takeWhile p ∧ Spaced (s.dropWhile p) (t.dropWhile p)
  := by
  induction h with
  | done hw =>
    next w =>
      cases w with
      | nil => exact ⟨rfl, .done hw⟩
      | cons c w =>
        have hc := hp c (hw c mem_cons_self)
        rw [takeWhile_cons_of_neg (by simp [hc]), dropWhile_cons_of_neg (by simp [hc])]
        exact ⟨rfl, .done hw⟩
  | char c h ih =>
    by_cases hc : p c
    · simp only [takeWhile_cons, dropWhile_cons, hc, if_true]
      rw [ih.1]
      exact ⟨rfl, ih.2⟩
    · rw [takeWhile_cons_of_neg hc, dropWhile_cons_of_neg hc,
        takeWhile_cons_of_neg hc, dropWhile_cons_of_neg hc]
      exact ⟨rfl, .char c h⟩
  | gap hw hbreak h ih =>
  next w s t =>
    cases w with
    | nil => cases hbreak
    | cons c w =>
    have hc := hp c (hw c mem_cons_self)
    have hn := hp '\n' (by decide)
    simp only [cons_append, takeWhile_cons, dropWhile_cons, hc, hn, Bool.false_eq_true, if_false]
    rw [← cons_append]
    exact ⟨trivial, .gap hw hbreak h⟩

theorem isSpace_of_isWs (h : isWs c) :
  isSpace c
  := by
  simp only [isWs, Bool.or_eq_true, decide_eq_true_eq] at h
  rcases h with ((rfl | rfl) | rfl) | rfl
  all_goals decide

variable {s' w : List Char}

/-- The token behind white space is the one behind a part of it. -/
theorem skipWs_append_space (hw : ∀ c ∈ w, isSpace c)
    (h : skipWs (w ++ s) = c :: s') (hc : isSpace c = false) :
  skipWs s = c :: s'
  := by
  induction w with
  | nil => exact h
  | cons d w ih =>
  rw [skipWs, cons_append, dropWhile_cons] at h
  split at h
  · apply ih (fun e he => hw e (mem_cons_of_mem d he)) h
  · obtain ⟨rfl, -⟩ := List.cons.inj h
    rw [hw _ mem_cons_self] at hc
    cases hc

/-- Behind white space there is the same token. -/
theorem Spaced.skipWs (h : Spaced s t) (hs : skipWs s = c :: s') (hc : isSpace c = false) :
  ∃ t', Json.skipWs t = c :: t' ∧ Spaced s' t'
  := by
  have hws : isWs c = false := by
    by_contra hws
    rw [isSpace_of_isWs (by simpa using hws)] at hc
    cases hc
  have hskip : ∀ {w : List Char} {s : List Char}, (∀ c ∈ w, isSpace c) →
      Json.skipWs (w ++ s) = c :: s' → Json.skipWs s = c :: s' :=
    fun hw hs => skipWs_append_space hw hs hc
  induction h with
  | done hw =>
    next w =>
      have hnil := hskip (s := []) hw (by rw [append_nil]; exact hs)
      cases hnil
  | char d h ih =>
    rw [Json.skipWs, dropWhile_cons] at hs
    split at hs
    · rename_i hd
      obtain ⟨t', ht', hspaced⟩ := ih hs
      use t'
      rw [Json.skipWs, dropWhile_cons, if_pos hd]
      exact ⟨ht', hspaced⟩
    · rename_i hd
      obtain ⟨rfl, rfl⟩ := List.cons.inj hs
      exact ⟨_, skipWs_of_not_isWs hws, h⟩
  | gap hw hbreak h ih =>
  obtain ⟨t', ht', hspaced⟩ := ih (hskip hw hs)
  use t'
  rw [Json.skipWs, dropWhile_cons, if_pos (by decide)]
  exact ⟨ht', hspaced⟩

/-- Where only white space follows, only white space follows. -/
theorem Spaced.skipWs_nil (h : Spaced s t) (hs : Json.skipWs s = []) :
  Json.skipWs t = []
  := by
  induction h with
  | done hw => rfl
  | char d h ih =>
    rw [Json.skipWs, dropWhile_cons] at hs
    split at hs
    · rename_i hd
      rw [Json.skipWs, dropWhile_cons, if_pos hd]
      apply ih hs
    · cases hs
  | gap hw hbreak h ih =>
  rw [Json.skipWs, dropWhile_eq_nil_iff] at hs
  rw [Json.skipWs, dropWhile_cons, if_pos (by decide)]
  apply ih
  rw [Json.skipWs, dropWhile_eq_nil_iff]
  intro c hc
  apply hs c (mem_append_right _ hc)

/-! ### Numbers -/

theorem Spaced.digits (h : Spaced s t) :
  s.takeWhile Char.isDigit = t.takeWhile Char.isDigit ∧
    Spaced (s.dropWhile Char.isDigit) (t.dropWhile Char.isDigit)
  := by
  apply h.dropWhile
  intro c hc
  by_contra hdigit
  rw [isSpace_of_isDigit (by simpa using hdigit)] at hc
  cases hc

theorem Spaced.scanInteger {ds : List Char} (h : Spaced s t)
    (hs : Decimal.scanInteger s = some (ds, s')) :
  ∃ t', Decimal.scanInteger t = some (ds, t') ∧ Spaced s' t'
  := by
  obtain ⟨htake, hdrop⟩ := h.digits
  rw [Decimal.scanInteger] at hs
  rw [Decimal.scanInteger, ← htake]
  split at hs
  · cases hs
  · cases hs
  · rename_i hne hzero
    cases hs
    exact ⟨_, rfl, hdrop⟩

theorem Spaced.scanFraction {fs : List Char} (h : Spaced s t)
    (hs : Decimal.scanFraction s = some (fs, s')) :
  ∃ t', Decimal.scanFraction t = some (fs, t') ∧ Spaced s' t'
  := by
  have hplain : (∀ c ∈ t.head?, c ≠ '.') → Decimal.scanFraction t = some ([], t) :=
    Decimal.scanFraction_of_ends
  rw [Decimal.scanFraction.eq_def] at hs
  split at hs
  · rename_i u
    obtain ⟨v, rfl, hspaced⟩ := h.head (by decide)
    obtain ⟨htake, hdrop⟩ := hspaced.digits
    rw [Decimal.scanFraction, ← htake]
    split at hs
    · cases hs
    · cases hs
      exact ⟨_, rfl, hdrop⟩
  rename_i hpoint
  cases hs
  use t
  use hplain ?_
  rcases h.head_or with ⟨c, s', t', rfl, rfl, -⟩ | ⟨-, hbreak⟩
  · intro d hd
    cases hd
    rintro rfl
    apply hpoint s' rfl
  · intro d hd
    rw [hbreak d hd]
    decide

theorem Spaced.scanSign (h : Spaced s t) :
  (Decimal.scanSign s).1 = (Decimal.scanSign t).1 ∧
    Spaced (Decimal.scanSign s).2 (Decimal.scanSign t).2
  := by
  rcases h.head_or with ⟨c, s', t', rfl, rfl, htail⟩ | ⟨hspace, hbreak⟩
  · by_cases hminus : c = '-'
    · subst hminus
      exact ⟨rfl, htail⟩
    by_cases hplus : c = '+'
    · subst hplus
      exact ⟨rfl, htail⟩
    have hsame : ∀ u : List Char, Decimal.scanSign (c :: u) = (false, c :: u) := by
      intro u
      rw [Decimal.scanSign.eq_def]
      split
      · next heq => exact absurd (List.cons.inj heq).1 hminus
      · next heq => exact absurd (List.cons.inj heq).1 hplus
      · rfl
    rw [hsame, hsame]
    exact ⟨rfl, h⟩
  have hsame : ∀ u : List Char, (∀ c ∈ u.head?, isSpace c) → Decimal.scanSign u = (false, u) := by
    intro u hu
    rw [Decimal.scanSign.eq_def]
    split
    · have hspace := hu '-' rfl
      exact absurd hspace (by decide)
    · have hspace := hu '+' rfl
      exact absurd hspace (by decide)
    · rfl
  have ht : ∀ c ∈ t.head?, isSpace c := by
    intro c hc
    rw [hbreak c hc]
    decide
  rw [hsame s hspace, hsame t ht]
  exact ⟨rfl, h⟩

theorem Spaced.scanExponent {x : ℤ} (h : Spaced s t) (hs : Decimal.scanExponent s = some (x, s')) :
  ∃ t', Decimal.scanExponent t = some (x, t') ∧ Spaced s' t'
  := by
  have hplain : (∀ c ∈ t.head?, c ≠ 'e' ∧ c ≠ 'E') → Decimal.scanExponent t = some (0, t) :=
    Decimal.scanExponent_of_ends
  rw [Decimal.scanExponent] at hs
  split at hs
  · rename_i hmark
    have hhead : ∃ c u, s = c :: u ∧ (c = 'e' ∨ c = 'E') := by
      cases s with
      | nil => simp at hmark
      | cons c u =>
        refine ⟨c, u, rfl, ?_⟩
        simpa using hmark
    obtain ⟨c, u, rfl, hc⟩ := hhead
    obtain ⟨v, rfl, hspaced⟩ := h.head (by rcases hc with rfl | rfl <;> decide)
    obtain ⟨hneg, hsign⟩ := hspaced.scanSign
    rw [Decimal.scanExponent, if_pos (by simpa using hc)]
    rw [tail_cons] at hs ⊢
    cases hu : Decimal.scanSign u with | mk neg u' =>
    cases hv : Decimal.scanSign v with | mk neg' v' =>
    rw [hu, hv] at hneg hsign
    rw [hu] at hs
    dsimp only at hneg hsign hs ⊢
    subst hneg
    obtain ⟨htake, hdrop⟩ := hsign.digits
    rw [← htake]
    split at hs
    · cases hs
    · cases hs
      exact ⟨_, rfl, hdrop⟩
  rename_i hmark
  cases hs
  use t
  use hplain ?_
  rcases h.head_or with ⟨c, s', t', rfl, rfl, -⟩ | ⟨-, hbreak⟩
  · intro d hd
    cases hd
    simpa [not_or] using hmark
  · intro d hd
    rw [hbreak d hd]
    decide

theorem Spaced.scanUnsigned {m : ℕ} {e : ℤ} (h : Spaced s t)
    (hs : Decimal.scanUnsigned s = some (m, e, s')) :
  ∃ t', Decimal.scanUnsigned t = some (m, e, t') ∧ Spaced s' t'
  := by
  rw [Decimal.scanUnsigned] at hs
  split at hs
  · cases hs
  rename_i ds s₁ hint
  split at hs
  · cases hs
  rename_i fs s₂ hfrac
  split at hs
  · cases hs
  rename_i x s₃ hexp
  obtain ⟨t₁, hint', h₁⟩ := h.scanInteger hint
  obtain ⟨t₂, hfrac', h₂⟩ := h₁.scanFraction hfrac
  obtain ⟨t₃, hexp', h₃⟩ := h₂.scanExponent hexp
  obtain ⟨rfl, hs'⟩ := Prod.mk.inj (Option.some.inj hs)
  obtain ⟨rfl, rfl⟩ := Prod.mk.inj hs'
  exact ⟨t₃, Decimal.scanUnsigned_eq hint' hfrac' hexp', h₃⟩

/-- The number at the start of the text. -/
theorem Spaced.scan {d : Decimal} (h : Spaced s t) (hs : Decimal.scan s = some (d, s')) :
  ∃ t', Decimal.scan t = some (d, t') ∧ Spaced s' t'
  := by
  rw [Decimal.scan.eq_def] at hs
  split at hs
  · rename_i u
    obtain ⟨v, rfl, hspaced⟩ := h.head (by decide)
    split at hs
    · cases hs
    rename_i m e w huns
    obtain ⟨t', ht', hrest⟩ := hspaced.scanUnsigned huns
    cases hs
    use t'
    rw [Decimal.scan, ht']
    exact ⟨rfl, hrest⟩
  split at hs
  · cases hs
  rename_i m e w huns
  obtain ⟨t', ht', hrest⟩ := h.scanUnsigned huns
  cases hs
  exact ⟨t', Decimal.scan_of_unsigned ht', hrest⟩

/-! ### Strings -/

variable {n : ℕ}

theorem isSpace_of_hexValue (h : hexValue c = some n) :
  isSpace c = false
  := by
  unfold hexValue at h
  split at h
  · next hdigit => apply isSpace_of_isDigit hdigit
  have hrange : 65 ≤ c.toNat ∧ c.toNat ≤ 70 ∨ 97 ≤ c.toNat ∧ c.toNat ≤ 102 := by
    split at h
    · next hlower => exact Or.inr hlower
    · split at h
      · next hupper => exact Or.inl hupper
      · cases h
  simp only [isSpace, decide_eq_false_iff_not, mem_cons, not_mem_nil, or_false]
  omega

/-- Four characters that are read as a number are there in both texts. -/
theorem Spaced.hex4 {a b d : Char}
    (h : Spaced (a :: b :: c :: d :: s) t) (hn : hexValue4 a b c d = some n) :
  ∃ t', t = a :: b :: c :: d :: t' ∧ Spaced s t'
  := by
  unfold hexValue4 at hn
  split at hn
  · rename_i ha hb hc hd
    obtain ⟨t₁, rfl, h₁⟩ := h.head (isSpace_of_hexValue ha)
    obtain ⟨t₂, rfl, h₂⟩ := h₁.head (isSpace_of_hexValue hb)
    obtain ⟨t₃, rfl, h₃⟩ := h₂.head (isSpace_of_hexValue hc)
    obtain ⟨t₄, rfl, h₄⟩ := h₃.head (isSpace_of_hexValue hd)
    exact ⟨t₄, rfl, h₄⟩
  · cases hn

theorem Spaced.parseUnit (h : Spaced s t) (hs : parseUnit n s = some (c, s')) :
  ∃ t', Json.parseUnit n t = some (c, t') ∧ Spaced s' t'
  := by
  rw [Json.parseUnit.eq_def] at hs
  split at hs
  · rename_i hvalid
    cases hs
    use t
    rw [Json.parseUnit.eq_def, if_pos hvalid]
    exact ⟨rfl, h⟩
  rename_i hvalid
  split at hs
  · rename_i a b d e u
    obtain ⟨t₁, rfl, h₁⟩ := h.head (by decide)
    obtain ⟨t₂, rfl, h₂⟩ := h₁.head (by decide)
    cases hm : hexValue4 a b d e with
    | none => simp [hm] at hs
    | some m =>
    obtain ⟨t₃, rfl, h₃⟩ := h₂.hex4 hm
    simp only [hm, Option.ite_none_right_eq_some, Option.some.injEq, Prod.mk.injEq] at hs
    obtain ⟨hpair, rfl, rfl⟩ := hs
    use t₃
    simp only [Json.parseUnit, if_neg hvalid, hm, if_pos hpair]
    exact ⟨trivial, h₃⟩
  · cases hs

theorem Spaced.parseEscape (h : Spaced s t) (hs : parseEscape s = some (c, s')) :
  ∃ t', Json.parseEscape t = some (c, t') ∧ Spaced s' t'
  := by
  rw [Json.parseEscape.eq_def] at hs
  split at hs
  case h_9 a b d e u =>
    cases hn : hexValue4 a b d e with
    | none => simp [hn] at hs
    | some n =>
    simp only [hn] at hs
    obtain ⟨t₁, rfl, h₁⟩ := h.head (by decide)
    obtain ⟨t₂, rfl, h₂⟩ := h₁.hex4 hn
    obtain ⟨t', ht', hrest⟩ := h₂.parseUnit hs
    use t'
    simp only [Json.parseEscape, hn, ht']
    exact ⟨trivial, hrest⟩
  case h_10 => cases hs
  all_goals
    cases hs
    obtain ⟨t₁, rfl, h₁⟩ := h.head (by decide)
    exact ⟨t₁, rfl, h₁⟩

theorem length_parseUnit
    (h : parseUnit n s = some (c, s')) :
  s'.length ≤ s.length
  := by
  rw [Json.parseUnit.eq_def] at h
  split at h
  · cases h
    apply le_refl
  split at h
  · rename_i a b d e u
    cases hm : hexValue4 a b d e with
    | none => simp [hm] at h
    | some m =>
    simp only [hm, Option.ite_none_right_eq_some, Option.some.injEq, Prod.mk.injEq] at h
    obtain ⟨-, rfl, rfl⟩ := h
    simp
    omega
  · cases h

theorem length_parseEscape (h : parseEscape s = some (c, s')) :
  s'.length < s.length
  := by
  rw [Json.parseEscape.eq_def] at h
  split at h
  case h_9 a b d e u =>
    cases hn : hexValue4 a b d e with
    | none => simp [hn] at h
    | some n =>
    simp only [hn] at h
    have hlen := length_parseUnit h
    simp only [length_cons]
    omega
  case h_10 => cases h
  all_goals
    cases h
    simp

/-- No string ends in white space with a line break, or in white space before the end. -/
theorem parseChars_space (hw : ∀ c ∈ w, isSpace c) (hs : '\n' ∈ w ∨ s = []) :
  parseChars n (w ++ s) = none
  := by
  induction n generalizing w with
  | zero => rfl
  | succ n ih =>
  cases w with
  | nil =>
    obtain rfl := hs.resolve_left not_mem_nil
    rfl
  | cons c w =>
  have hc := hw c mem_cons_self
  have hquote : c ≠ '"' := by
    rintro rfl
    exact absurd hc (by decide)
  have hslash : c ≠ '\\' := by
    rintro rfl
    exact absurd hc (by decide)
  rw [cons_append, parseChars]
  simp only [if_neg hquote, if_neg hslash]
  split
  · rfl
  rename_i hcontrol
  rw [ih (fun d hd => hw d (mem_cons_of_mem c hd)), Option.map_none]
  apply hs.imp_left
  intro hbreak
  rcases mem_cons.mp hbreak with rfl | hbreak
  · exact absurd (by decide) hcontrol
  · exact hbreak

/-- The characters of a string are in both texts. -/
theorem Spaced.parseChars {cs : List Char} (h : Spaced s t) (hs : parseChars n s = some (cs, s')) :
  ∃ t', Spaced s' t' ∧ t'.length < t.length ∧
    ∀ m, t.length - t'.length ≤ m → Json.parseChars m t = some (cs, t')
  := by
  induction n generalizing s t cs with
  | zero => cases hs
  | succ n ih =>
  cases h with
  | done hw =>
    have hnone := parseChars_space (n := n + 1) (s := []) hw (Or.inr rfl)
    rw [append_nil, hs] at hnone
    cases hnone
  | gap hw hbreak h =>
    rw [parseChars_space hw (Or.inl hbreak)] at hs
    cases hs
  | char c h =>
  next s t =>
    rw [Json.parseChars] at hs
    simp only at hs
    split at hs
    · rename_i hquote
      cases hs
      use t, h, by simp
      intro m hm
      obtain ⟨m, rfl⟩ : ∃ k, m = k + 1 := ⟨m - 1, by simp at hm; omega⟩
      rw [Json.parseChars]
      simp only [if_pos hquote]
    rename_i hquote
    split at hs
    · rename_i hslash
      cases he : Json.parseEscape s with
      | none => simp [he] at hs
      | some p =>
      obtain ⟨e, u⟩ := p
      simp only [he, Option.map_eq_some_iff, Prod.exists, Prod.mk.injEq] at hs
      obtain ⟨ds, u', hds, rfl, rfl⟩ := hs
      obtain ⟨v, hv, hrest⟩ := h.parseEscape he
      obtain ⟨t', ht', hlen, hread⟩ := ih hrest hds
      have hescape := length_parseEscape hv
      use t', ht'
      simp only [length_cons]
      use by omega
      intro m hm
      obtain ⟨m, rfl⟩ : ∃ k, m = k + 1 := ⟨m - 1, by omega⟩
      rw [Json.parseChars]
      simp only [if_neg hquote, if_pos hslash, hv, hread m (by omega), Option.map_some]
    rename_i hslash
    split at hs
    · cases hs
    rename_i hcontrol
    simp only [Option.map_eq_some_iff, Prod.exists, Prod.mk.injEq] at hs
    obtain ⟨ds, u', hds, rfl, rfl⟩ := hs
    obtain ⟨t', ht', hlen, hread⟩ := ih h hds
    use t', ht'
    simp only [length_cons]
    use by omega
    intro m hm
    obtain ⟨m, rfl⟩ : ∃ k, m = k + 1 := ⟨m - 1, by omega⟩
    rw [Json.parseChars]
    simp only [if_neg hquote, if_neg hslash, if_neg hcontrol, hread m (by omega), Option.map_some]

/-- The string behind a quote is in both texts. -/
theorem Spaced.parseString {k : String} (h : Spaced s t) (hs : parseString s = some (k, s')) :
  ∃ t', Spaced s' t' ∧ t'.length < t.length ∧ Json.parseString t = some (k, t')
  := by
  rw [Json.parseString, Option.map_eq_some_iff] at hs
  obtain ⟨⟨cs, u⟩, hcs, heq⟩ := hs
  obtain ⟨rfl, rfl⟩ := Prod.mk.inj heq
  obtain ⟨t', hrest, hlen, hread⟩ := h.parseChars hcs
  use t', hrest, hlen
  rw [Json.parseString, hread _ (by omega), Option.map_some]

/-! ### Values -/

theorem length_skipWs (s : List Char) :
  (skipWs s).length ≤ s.length
  := (dropWhile_sublist isWs).length_le

theorem isSpace_of_number (hc : c.isDigit = true ∨ c = '-') :
  isSpace c = false
  := by
  rcases hc with hc | rfl
  · apply isSpace_of_isDigit hc
  · decide

variable {v : Json}

/-- A value does not start with white space, but for what stands between tokens. -/
theorem parseValue_head
    (h : parseValue n s = some (v, s')) :
  ∃ c u, skipWs s = c :: u ∧ isSpace c = false
  := by
  cases n with
  | zero => cases h
  | succ n =>
  rw [parseValue] at h
  split at h
  · next hu => exact ⟨_, _, hu, by decide⟩
  · next hu => exact ⟨_, _, hu, by decide⟩
  · next hu => exact ⟨_, _, hu, by decide⟩
  · next hu => exact ⟨_, _, hu, by decide⟩
  · next hu => exact ⟨_, _, hu, by decide⟩
  · next hu => exact ⟨_, _, hu, by decide⟩
  rw [Option.map_eq_some_iff] at h
  obtain ⟨⟨d, t'⟩, hd, -⟩ := h
  obtain ⟨c, u, hu, hc⟩ := scan_head hd
  exact ⟨c, u, hu, isSpace_of_number hc⟩

/-- Elements do not start with white space, but for what stands between tokens. -/
theorem parseElements_head {acc : List Json} (h : parseElements n acc s = some (v, s')) :
  ∃ c u, skipWs s = c :: u ∧ isSpace c = false
  := by
  cases n with
  | zero => cases h
  | succ n =>
  rw [parseElements] at h
  split at h
  · cases h
  · next hv => apply parseValue_head hv

/-- Members do not start with white space, but for what stands between tokens. -/
theorem parseMembers_head {acc : List (String × Json)} (h : parseMembers n acc s = some (v, s')) :
  ∃ u, skipWs s = '"' :: u
  := by
  cases n with
  | zero => cases h
  | succ n =>
  rw [parseMembers] at h
  split at h
  · next u hu => exact ⟨u, hu⟩
  · cases h

/-- What is read of the first text with a bound is read of the second one, with every bound that
is twice the number of characters it takes. -/
structure Mirrors (n : ℕ) : Prop where
  value : ∀ {s s' t v}, Spaced s t → parseValue n s = some (v, s') →
    ∃ t', Spaced s' t' ∧ t'.length < t.length ∧
      ∀ m, 2 * (t.length - t'.length) ≤ m → parseValue m t = some (v, t')
  elements : ∀ {acc s s' t v}, Spaced s t → parseElements n acc s = some (v, s') →
    ∃ t', Spaced s' t' ∧ t'.length < t.length ∧
      ∀ m, 2 * (t.length - t'.length) ≤ m → parseElements m acc t = some (v, t')
  members : ∀ {acc s s' t v}, Spaced s t → parseMembers n acc s = some (v, s') →
    ∃ t', Spaced s' t' ∧ t'.length < t.length ∧
      ∀ m, 2 * (t.length - t'.length) ≤ m → parseMembers m acc t = some (v, t')

theorem Mirrors.elements_succ (ih : Mirrors n) {acc : List Json}
    (h : Spaced s t) (hs : parseElements (n + 1) acc s = some (v, s')) :
  ∃ t', Spaced s' t' ∧ t'.length < t.length ∧
    ∀ m, 2 * (t.length - t'.length) ≤ m → parseElements m acc t = some (v, t')
  := by
  rw [parseElements] at hs
  cases hx : parseValue n s with
  | none => simp [hx] at hs
  | some p =>
  obtain ⟨x, u⟩ := p
  simp only [hx] at hs
  obtain ⟨t₁, h₁, hlength₁, hread₁⟩ := ih.value h hx
  have hskip₁ := length_skipWs t₁
  split at hs
  · rename_i r hr
    obtain ⟨t₂, ht₂, h₂⟩ := h₁.skipWs hr (by decide)
    obtain ⟨t₃, h₃, hlength₃, hread₃⟩ := ih.elements h₂ hs
    rw [ht₂, length_cons] at hskip₁
    use t₃, h₃, by omega
    intro m hm
    obtain ⟨m, rfl⟩ : ∃ k, m = k + 1 := ⟨m - 1, by omega⟩
    rw [parseElements, hread₁ m (by omega)]
    simp only [ht₂]
    apply hread₃
    omega
  · rename_i r hr
    cases hs
    obtain ⟨t₂, ht₂, h₂⟩ := h₁.skipWs hr (by decide)
    rw [ht₂, length_cons] at hskip₁
    use t₂, h₂, by omega
    intro m hm
    obtain ⟨m, rfl⟩ : ∃ k, m = k + 1 := ⟨m - 1, by omega⟩
    rw [parseElements, hread₁ m (by omega)]
    simp only [ht₂]
  · cases hs

theorem Mirrors.members_succ (ih : Mirrors n) {acc : List (String × Json)} (h : Spaced s t)
    (hs : parseMembers (n + 1) acc s = some (v, s')) :
  ∃ t', Spaced s' t' ∧ t'.length < t.length ∧
    ∀ m, 2 * (t.length - t'.length) ≤ m → parseMembers m acc t = some (v, t')
  := by
  rw [parseMembers] at hs
  split at hs
  · rename_i u hu
    obtain ⟨t₁, ht₁, h₁⟩ := h.skipWs hu (by decide)
    have hskip := length_skipWs t
    rw [ht₁, length_cons] at hskip
    cases hk : Json.parseString u with
    | none => simp [hk] at hs
    | some p =>
    obtain ⟨k, u'⟩ := p
    simp only [hk] at hs
    obtain ⟨t₂, h₂, hlength₂, hread₂⟩ := h₁.parseString hk
    have hskip₂ := length_skipWs t₂
    split at hs
    · rename_i r hr
      obtain ⟨t₃, ht₃, h₃⟩ := h₂.skipWs hr (by decide)
      rw [ht₃, length_cons] at hskip₂
      cases hx : parseValue n r with
      | none => simp [hx] at hs
      | some p =>
      obtain ⟨x, r'⟩ := p
      simp only [hx] at hs
      obtain ⟨t₄, h₄, hlength₄, hread₄⟩ := ih.value h₃ hx
      have hskip₄ := length_skipWs t₄
      split at hs
      · rename_i q hq
        obtain ⟨t₅, ht₅, h₅⟩ := h₄.skipWs hq (by decide)
        obtain ⟨t₆, h₆, hlength₆, hread₆⟩ := ih.members h₅ hs
        rw [ht₅, length_cons] at hskip₄
        use t₆, h₆, by omega
        intro m hm
        obtain ⟨m, rfl⟩ : ∃ k, m = k + 1 := ⟨m - 1, by omega⟩
        rw [parseMembers]
        simp only [ht₁, hread₂, ht₃, hread₄ m (by omega), ht₅]
        apply hread₆
        omega
      · rename_i q hq
        cases hs
        obtain ⟨t₅, ht₅, h₅⟩ := h₄.skipWs hq (by decide)
        rw [ht₅, length_cons] at hskip₄
        use t₅, h₅, by omega
        intro m hm
        obtain ⟨m, rfl⟩ : ∃ k, m = k + 1 := ⟨m - 1, by omega⟩
        rw [parseMembers]
        simp only [ht₁, hread₂, ht₃, hread₄ m (by omega), ht₅]
      · cases hs
    · cases hs
  · cases hs

theorem skipWs_skipWs (s : List Char) :
  skipWs (skipWs s) = skipWs s
  := by
  cases h : skipWs s with
  | nil => rfl
  | cons c u =>
  have hhead := List.head?_dropWhile_not isWs s
  rw [← skipWs.eq_def, h] at hhead
  apply skipWs_of_not_isWs
  simpa using hhead

/-- What stands behind an opening bracket. -/
theorem Spaced.opened {d : Char} {u : List Char} (h : Spaced s t)
    (hs : Json.skipWs s = c :: u) (hc : isSpace c = false) (hu : Json.skipWs (Json.skipWs u) = d :: w)
    (hd : isSpace d = false) :
  ∃ t₁ t₂, Json.skipWs t = c :: t₁ ∧ Json.skipWs t₁ = d :: t₂ ∧
    Spaced (Json.skipWs u) (Json.skipWs t₁) ∧ t₂.length + 1 < t.length
  := by
  obtain ⟨t₁, ht₁, h₁⟩ := h.skipWs hs hc
  rw [skipWs_skipWs] at hu
  obtain ⟨t₂, ht₂, h₂⟩ := h₁.skipWs hu hd
  have hskip := length_skipWs t
  have hskip₁ := length_skipWs t₁
  rw [ht₁, length_cons] at hskip
  rw [ht₂, length_cons] at hskip₁
  use t₁, t₂, ht₁, ht₂
  rw [hu, ht₂]
  use .char d h₂
  omega

theorem length_dropWhile_lt {p : Char → Bool} (h : s.takeWhile p ≠ []) :
  (s.dropWhile p).length < s.length
  := by
  have hsplit := congrArg List.length (takeWhile_append_dropWhile (p := p) (l := s))
  rw [length_append] at hsplit
  have hpos := length_pos_iff.mpr h
  omega

theorem length_scanExponent {x : ℤ} (h : Decimal.scanExponent s = some (x, s')) :
  s'.length ≤ s.length
  := by
  have hsign : ∀ u : List Char, (Decimal.scanSign u).2.length ≤ u.length := by
    intro u
    rw [Decimal.scanSign.eq_def]
    split
    · simp
    · simp
    · apply le_refl
  rw [Decimal.scanExponent] at h
  split at h
  · dsimp only at h
    split at h
    · cases h
    cases h
    apply (dropWhile_sublist _).length_le.trans
    apply (hsign s.tail).trans
    rw [length_tail]
    omega
  · cases h
    apply le_refl

theorem length_scanUnsigned {m : ℕ} {e : ℤ} (h : Decimal.scanUnsigned s = some (m, e, s')) :
  s'.length < s.length
  := by
  rw [Decimal.scanUnsigned] at h
  split at h
  · cases h
  rename_i ds s₁ hint
  have h₁ : s₁.length < s.length := by
    rw [Decimal.scanInteger] at hint
    split at hint
    · cases hint
    · cases hint
    rename_i hne hzero
    cases hint
    apply length_dropWhile_lt
    intro hnil
    apply hne hnil
  split at h
  · cases h
  rename_i fs s₂ hfrac
  have h₂ : s₂.length ≤ s₁.length := by
    rw [Decimal.scanFraction.eq_def] at hfrac
    split at hfrac
    · split at hfrac
      · cases hfrac
      cases hfrac
      rw [length_cons]
      apply (dropWhile_sublist _).length_le.trans
      omega
    · cases hfrac
      apply le_refl
  split at h
  · cases h
  rename_i x s₃ hexp
  have h₃ : s₃.length ≤ s₂.length := length_scanExponent hexp
  obtain ⟨-, h'⟩ := Prod.mk.inj (Option.some.inj h)
  obtain ⟨-, rfl⟩ := Prod.mk.inj h'
  omega

/-- A number takes at least one character. -/
theorem length_scan {d : Decimal} (h : Decimal.scan s = some (d, s')) :
  s'.length < s.length
  := by
  rw [Decimal.scan.eq_def] at h
  split at h
  · split at h
    · cases h
    rename_i huns
    cases h
    have hlen := length_scanUnsigned huns
    rw [length_cons]
    omega
  split at h
  · cases h
  · rename_i huns
    cases h
    apply length_scanUnsigned huns

theorem Mirrors.value_succ (ih : Mirrors n)
    (h : Spaced s t) (hs : parseValue (n + 1) s = some (v, s')) :
  ∃ t', Spaced s' t' ∧ t'.length < t.length ∧
    ∀ m, 2 * (t.length - t'.length) ≤ m → parseValue m t = some (v, t')
  := by
  have hskip := length_skipWs t
  rw [parseValue] at hs
  split at hs
  · rename_i u hu
    rw [Option.map_eq_some_iff] at hs
    obtain ⟨⟨k, u'⟩, hk, heq⟩ := hs
    obtain ⟨rfl, rfl⟩ := Prod.mk.inj heq
    obtain ⟨t₁, ht₁, h₁⟩ := h.skipWs hu (by decide)
    obtain ⟨t₂, h₂, hlength₂, hread₂⟩ := h₁.parseString hk
    rw [ht₁, length_cons] at hskip
    use t₂, h₂, by omega
    intro m hm
    obtain ⟨m, rfl⟩ : ∃ k, m = k + 1 := ⟨m - 1, by omega⟩
    rw [parseValue]
    simp only [ht₁, hread₂, Option.map_some]
  · rename_i u hu
    split at hs
    · rename_i w hclose
      cases hs
      have hclose' := hclose
      rw [← skipWs_skipWs] at hclose'
      obtain ⟨t₁, t₂, ht₁, ht₂, h₂, hlen⟩ := h.opened hu (by decide) hclose' (by decide)
      rw [hclose, ht₂] at h₂
      obtain ⟨t₃, heq, h₃⟩ := h₂.head (by decide)
      obtain ⟨-, rfl⟩ := List.cons.inj heq
      use t₂, h₃, by omega
      intro m hm
      obtain ⟨m, rfl⟩ : ∃ k, m = k + 1 := ⟨m - 1, by omega⟩
      rw [parseValue]
      simp only [ht₁, ht₂]
    rename_i hopen
    obtain ⟨w, hw⟩ := parseMembers_head hs
    obtain ⟨t₁, t₂, ht₁, ht₂, h₂, hlen⟩ := h.opened hu (by decide) hw (by decide)
    obtain ⟨t₃, h₃, hlength₃, hread₃⟩ := ih.members h₂ hs
    rw [ht₂, length_cons] at hlength₃
    use t₃, h₃, by omega
    intro m hm
    obtain ⟨m, rfl⟩ : ∃ k, m = k + 1 := ⟨m - 1, by omega⟩
    have hmems := hread₃ m (by rw [ht₂, length_cons]; omega)
    rw [ht₂] at hmems
    rw [parseValue]
    simp only [ht₁, ht₂]
    apply hmems
  · rename_i u hu
    split at hs
    · rename_i w hclose
      cases hs
      have hclose' := hclose
      rw [← skipWs_skipWs] at hclose'
      obtain ⟨t₁, t₂, ht₁, ht₂, h₂, hlen⟩ := h.opened hu (by decide) hclose' (by decide)
      rw [hclose, ht₂] at h₂
      obtain ⟨t₃, heq, h₃⟩ := h₂.head (by decide)
      obtain ⟨-, rfl⟩ := List.cons.inj heq
      use t₂, h₃, by omega
      intro m hm
      obtain ⟨m, rfl⟩ : ∃ k, m = k + 1 := ⟨m - 1, by omega⟩
      rw [parseValue]
      simp only [ht₁, ht₂]
    rename_i hopen
    obtain ⟨d, w, hw, hd⟩ := parseElements_head hs
    obtain ⟨t₁, t₂, ht₁, ht₂, h₂, hlen⟩ := h.opened hu (by decide) hw hd
    obtain ⟨t₃, h₃, hlength₃, hread₃⟩ := ih.elements h₂ hs
    rw [ht₂, length_cons] at hlength₃
    have hclose : d ≠ ']' := by
      rintro rfl
      rw [skipWs_skipWs] at hw
      apply hopen w hw
    use t₃, h₃, by omega
    intro m hm
    obtain ⟨m, rfl⟩ : ∃ k, m = k + 1 := ⟨m - 1, by omega⟩
    have helements := hread₃ m (by rw [ht₂, length_cons]; omega)
    rw [ht₂] at helements
    rw [parseValue]
    simp only [ht₁, ht₂]
    split
    · next heq => exact absurd (List.cons.inj heq).1 hclose
    · apply helements
  · rename_i u hu
    cases hs
    obtain ⟨t₁, ht₁, h₁⟩ := h.skipWs hu (by decide)
    obtain ⟨t₂, rfl, h₂⟩ := h₁.head (by decide)
    obtain ⟨t₃, rfl, h₃⟩ := h₂.head (by decide)
    obtain ⟨t₄, rfl, h₄⟩ := h₃.head (by decide)
    simp only [ht₁, length_cons] at hskip
    use t₄, h₄, by omega
    intro m hm
    obtain ⟨m, rfl⟩ : ∃ k, m = k + 1 := ⟨m - 1, by omega⟩
    rw [parseValue]
    simp only [ht₁]
  · rename_i u hu
    cases hs
    obtain ⟨t₁, ht₁, h₁⟩ := h.skipWs hu (by decide)
    obtain ⟨t₂, rfl, h₂⟩ := h₁.head (by decide)
    obtain ⟨t₃, rfl, h₃⟩ := h₂.head (by decide)
    obtain ⟨t₄, rfl, h₄⟩ := h₃.head (by decide)
    obtain ⟨t₅, rfl, h₅⟩ := h₄.head (by decide)
    simp only [ht₁, length_cons] at hskip
    use t₅, h₅, by omega
    intro m hm
    obtain ⟨m, rfl⟩ : ∃ k, m = k + 1 := ⟨m - 1, by omega⟩
    rw [parseValue]
    simp only [ht₁]
  · rename_i u hu
    cases hs
    obtain ⟨t₁, ht₁, h₁⟩ := h.skipWs hu (by decide)
    obtain ⟨t₂, rfl, h₂⟩ := h₁.head (by decide)
    obtain ⟨t₃, rfl, h₃⟩ := h₂.head (by decide)
    obtain ⟨t₄, rfl, h₄⟩ := h₃.head (by decide)
    simp only [ht₁, length_cons] at hskip
    use t₄, h₄, by omega
    intro m hm
    obtain ⟨m, rfl⟩ : ∃ k, m = k + 1 := ⟨m - 1, by omega⟩
    rw [parseValue]
    simp only [ht₁]
  rw [Option.map_eq_some_iff] at hs
  obtain ⟨⟨d, t'⟩, hd, heq⟩ := hs
  obtain ⟨rfl, rfl⟩ := Prod.mk.inj heq
  obtain ⟨c, u, hu, hc⟩ := scan_head hd
  obtain ⟨t₁, ht₁, h₁⟩ := h.skipWs hu (isSpace_of_number hc)
  rw [hu] at hd
  obtain ⟨t₂, ht₂, h₂⟩ := (Spaced.char c h₁).scan hd
  have hlen := length_scan ht₂
  rw [ht₁] at hskip
  use t₂, h₂, by omega
  intro m hm
  obtain ⟨m, rfl⟩ : ∃ k, m = k + 1 := ⟨m - 1, by omega⟩
  rw [parseValue_skipWs ht₁, parseValue_number hc, ht₂, Option.map_some]

/-- Reading mirrors white space at line breaks. -/
theorem mirrors_all (n : ℕ) :
  Mirrors n
  := by
  induction n with
  | zero => exact ⟨nofun, nofun, nofun⟩
  | succ n ih => exact ⟨ih.value_succ, ih.elements_succ, ih.members_succ⟩

/-- White space at line breaks does not change what a text stands for. -/
theorem parse_spaced (hw : ∀ c ∈ w, isSpace c) (h : Spaced s t) (hs : parse (w ++ s) = some v) :
  parse t = some v
  := by
  unfold parse at hs
  split at hs
  · cases hs
  rename_i x u hvalue
  split at hs
  · rename_i hend
    cases hs
    obtain ⟨c, r, hskip, hc⟩ := parseValue_head hvalue
    have hbehind : skipWs s = c :: r := skipWs_append_space hw hskip hc
    rw [parseValue_skipWs hskip, ← parseValue_skipWs hbehind] at hvalue
    obtain ⟨t', hrest, hlen, hread⟩ := (mirrors_all _).value h hvalue
    rw [parse, hread _ (by omega)]
    simp only
    rw [if_pos (hrest.skipWs_nil hend)]
  · cases hs

/-! ### Lines -/

/-- The characters of `s.trimEnd()`. -/
def trimmedEnd (s : List Char) : List Char :=
  s.rdropWhile isSpace

/-- The characters of `s.trim()`. -/
def trimmed (s : List Char) : List Char :=
  trimmedEnd (s.dropWhile isSpace)

/-- Lines behind each other, each after a line break. -/
def behind (ls : List (List Char)) : List Char :=
  ls.flatMap fun l => '\n' :: l

theorem trimmedEnd_append (s t : List Char) :
  trimmedEnd (s ++ t) = if trimmedEnd t = [] then trimmedEnd s else s ++ trimmedEnd t
  := by
  unfold trimmedEnd List.rdropWhile
  rw [reverse_append, dropWhile_append]
  simp only [List.isEmpty_iff, reverse_eq_nil_iff]
  split
  · rfl
  · simp

/-- A text is what is trimmed of it between white space. -/
theorem exists_trimmed (s : List Char) :
  ∃ w w', (∀ c ∈ w, isSpace c) ∧ (∀ c ∈ w', isSpace c) ∧ s = w ++ trimmed s ++ w'
  := by
  use s.takeWhile isSpace, ((s.dropWhile isSpace).reverse.takeWhile isSpace).reverse
  refine ⟨fun c hc => mem_takeWhile_imp hc, ?_, ?_⟩
  · intro c hc
    rw [mem_reverse] at hc
    apply mem_takeWhile_imp hc
  · rw [append_assoc, trimmed, trimmedEnd, List.rdropWhile, ← reverse_append,
      takeWhile_append_dropWhile, reverse_reverse, takeWhile_append_dropWhile]

theorem trimmedEnd_trimmed (s : List Char) :
  trimmedEnd (trimmed s) = trimmed s
  := by
  rw [trimmed, trimmedEnd, trimmedEnd, rdropWhile_idempotent]

theorem trimmedEnd_line (l t : List Char) :
  trimmedEnd (trimmed l ++ t) = trimmed l ++ trimmedEnd t
  := by
  rw [trimmedEnd_append]
  split
  · next hnil => rw [hnil, append_nil, trimmedEnd_trimmed]
  · rfl

theorem intercalate_eq_behind (l : List Char) (ls : List (List Char)) :
  ['\n'].intercalate (l :: ls) = l ++ behind ls
  := by
  induction ls generalizing l with
  | nil => simp [behind]
  | cons l' ls ih =>
    rw [List.intercalate_cons_cons, ih]
    simp [behind]

theorem append_behind (ls : List (List Char)) :
  ['\n'] ++ ls.flatMap (fun l => trimmed l ++ ['\n']) =
    (ls.flatMap fun l => '\n' :: trimmed l) ++ ['\n']
  := by
  induction ls with
  | nil => rfl
  | cons l ls ih =>
    rw [flatMap_cons, flatMap_cons, append_assoc, ih]
    simp

/-- Only white space is dropped at the end. -/
theorem Spaced.of_nil (h : Spaced s []) :
  ∀ c ∈ s, isSpace c
  := by
  cases h with
  | done hw => exact hw

theorem Spaced.append (r : List Char) (h : Spaced s t) :
  Spaced (r ++ s) (r ++ t)
  := by
  induction r with
  | nil => exact h
  | cons c r ih => exact .char c ih

/-- Lines may be trimmed. -/
theorem spaced_behind (ls : List (List Char)) (hw : ∀ c ∈ w, isSpace c) :
  Spaced (w ++ behind ls) (trimmedEnd (behind (ls.map trimmed)))
  := by
  induction ls generalizing w with
  | nil =>
    rw [behind, flatMap_nil, append_nil]
    exact .done hw
  | cons l ls ih =>
  obtain ⟨a, b, ha, hb, hl⟩ := exists_trimmed l
  have hih := ih hb
  have hsrc : w ++ behind (l :: ls) = (w ++ '\n' :: a) ++ (trimmed l ++ (b ++ behind ls)) := by
    conv_lhs => rw [behind, flatMap_cons, hl]
    simp [behind]
  have htgt : behind ((l :: ls).map trimmed) =
      '\n' :: (trimmed l ++ behind (ls.map trimmed)) := by
    simp [behind]
  have hgap : ∀ c ∈ w ++ '\n' :: a, isSpace c := by
    intro c hc
    rcases mem_append.mp hc with hc | hc
    · apply hw c hc
    · rcases mem_cons.mp hc with rfl | hc
      · decide
      · apply ha c hc
  have hline : trimmedEnd (trimmed l ++ behind (ls.map trimmed)) =
      trimmed l ++ trimmedEnd (behind (ls.map trimmed)) := trimmedEnd_line l _
  have hrest : Spaced (trimmed l ++ (b ++ behind ls))
      (trimmedEnd (trimmed l ++ behind (ls.map trimmed))) := by
    rw [hline]
    apply hih.append
  have hcons : ∀ t : List Char, trimmedEnd ('\n' :: t) =
      if trimmedEnd t = [] then trimmedEnd ['\n'] else '\n' :: trimmedEnd t :=
    fun t => trimmedEnd_append ['\n'] t
  rw [hsrc, htgt, hcons]
  split
  · rename_i hnil
    rw [hnil] at hrest
    have hspaces := hrest.of_nil
    have hbreak : trimmedEnd ['\n'] = [] := by decide
    rw [hbreak]
    apply Spaced.done
    intro c hc
    rcases mem_append.mp hc with hc | hc
    · apply hgap c hc
    · apply hspaces c hc
  · apply Spaced.gap hgap _ hrest
    simp

/-- Lines that stand for a value stand for it after they have been trimmed. -/
theorem parse_trimmed {ls : List (List Char)} (h : parse (['\n'].intercalate ls) = some v) :
  parse (trimmedEnd (ls.flatMap fun l => trimmed l ++ ['\n'])) = some v
  := by
  cases ls with
  | nil => cases h
  | cons l ls =>
  obtain ⟨a, b, ha, hb, hl⟩ := exists_trimmed l
  have hsrc : ['\n'].intercalate (l :: ls) = a ++ (trimmed l ++ (b ++ behind ls)) := by
    rw [intercalate_eq_behind]
    conv_lhs => rw [hl]
    simp
  have htgt : ((l :: ls).flatMap fun l => trimmed l ++ ['\n']) =
      trimmed l ++ behind (ls.map trimmed) ++ ['\n'] := by
    rw [flatMap_cons, append_assoc, append_assoc, append_behind, behind, flatMap_map]
  have hbreak : trimmedEnd ['\n'] = [] := by decide
  rw [hsrc] at h
  rw [htgt, trimmedEnd_append, if_pos hbreak]
  apply parse_spaced ha _ h
  have hline : trimmedEnd (trimmed l ++ behind (ls.map trimmed)) =
      trimmed l ++ trimmedEnd (behind (ls.map trimmed)) := trimmedEnd_line l _
  rw [hline]
  apply (spaced_behind ls hb).append

end Json
