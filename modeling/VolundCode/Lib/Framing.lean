import Mathlib.Data.List.Chain
import Mathlib.Data.List.Infix

/-!
# Frames in a stream

A stream is cut at the occurrences of a separator, from the left and without overlaps, as a reader
does that appends what arrives to a buffer and takes a frame from the front of it as long as the
buffer contains the separator. The element that completes a separator completes a frame, so that a
stream is cut the same way whatever the pieces are in which it arrives (`frames_append`,
`frames_rest_append`).
-/

namespace Framing

open List

universe u

variable {α : Type u} [DecidableEq α]

/-- The frames of a buffer and of what comes behind it, and what is left in the buffer. -/
def frames (sep : List α) : List α → List α → List (List α) × List α
  | buffer, [] => ([], buffer)
  | buffer, a :: l =>
    if sep.isSuffixOf (buffer ++ [a]) then
      let cut := frames sep [] l
      ((buffer ++ [a]).take (buffer.length + 1 - sep.length) :: cut.1, cut.2)
    else frames sep (buffer ++ [a]) l

/-- The frames of a stream. -/
def pieces (sep l : List α) : List (List α) :=
  (frames sep [] l).1

/-- What follows the last separator of a stream. -/
def rest (sep l : List α) : List α :=
  (frames sep [] l).2

/-- The separator occurs in the frame with the separator behind it nowhere but there. -/
def Sole (sep p : List α) : Prop :=
  ∀ init, init <+: p ++ sep → sep <:+ init → init = p ++ sep

/-- The separator does not occur. -/
def Free (sep l : List α) : Prop :=
  ¬ sep <:+: l

variable {sep : List α}

/-- A stream in two parts is cut in two parts. -/
theorem frames_append (buffer s t : List α) :
  frames sep buffer (s ++ t) = ((frames sep buffer s).1 ++ (frames sep (frames sep buffer s).2 t).1,
      (frames sep (frames sep buffer s).2 t).2)
  := by
  induction s generalizing buffer with
  | nil => rfl
  | cons a s ih =>
  rw [cons_append, frames, frames]
  split
  · dsimp only
    rw [ih]
    rfl
  · apply ih

variable {buffer l : List α}

/-- What has no separator stays in the buffer. -/
theorem frames_of_free (h : Free sep (buffer ++ l)) :
  frames sep buffer l = ([], buffer ++ l)
  := by
  induction l generalizing buffer with
  | nil => simp [frames]
  | cons a l ih =>
  have hnot : sep.isSuffixOf (buffer ++ [a]) ≠ true := by
    intro hsuffix
    apply h
    rw [isSuffixOf_iff_suffix] at hsuffix
    rw [append_cons]
    apply hsuffix.isInfix.trans
    apply prefix_append _ _ |>.isInfix
  rw [frames, if_neg hnot, ih (by simpa using h)]
  simp

theorem frames_of_not_suffix (h : ∀ init, init <+: buffer ++ l → ¬ sep <:+ init) :
  frames sep buffer l = ([], buffer ++ l)
  := by
  apply frames_of_free
  rintro ⟨s, t, hst⟩
  apply h (s ++ sep)
  · rw [← hst]
    apply prefix_append
  · apply suffix_append

variable {p : List α}

/-- A frame is cut off at its separator. -/
theorem frames_sole (hsep : sep ≠ []) (hp : Sole sep p) (l : List α) :
  frames sep [] (p ++ sep ++ l) = (p :: (frames sep [] l).1, (frames sep [] l).2)
  := by
  obtain ⟨init, last, hlast⟩ : ∃ init last, sep = init ++ [last] :=
    ⟨sep.dropLast, sep.getLast hsep, (dropLast_append_getLast hsep).symm⟩
  have hpre : frames sep [] (p ++ init) = ([], p ++ init) := by
    rw [frames_of_not_suffix]
    · rfl
    intro s hs hsuffix
    rw [nil_append] at hs
    have hle : s <+: p ++ sep := by
      rw [hlast, ← append_assoc]
      apply hs.trans
      apply prefix_append
    have hall := hp s hle hsuffix
    have hlen := hs.length_le
    rw [hall, hlast] at hlen
    simp only [length_append, length_singleton] at hlen
    omega
  have hsplit : p ++ sep ++ l = (p ++ init) ++ last :: l := by
    rw [hlast]
    simp
  have hsuffix : sep.isSuffixOf (p ++ init ++ [last]) := by
    rw [isSuffixOf_iff_suffix, append_assoc, ← hlast]
    apply suffix_append
  rw [hsplit, frames_append, hpre]
  dsimp only
  rw [frames, if_pos hsuffix]
  have htake : (p ++ init ++ [last]).take ((p ++ init).length + 1 - sep.length) = p := by
    rw [hlast]
    simp
  rw [htake]
  rfl

variable {a : α}

/-- One element as a separator is in no frame. -/
theorem sole_singleton (h : a ∉ p) :
  Sole [a] p
  := by
  intro init hinit hsuffix
  obtain ⟨s, rfl⟩ := hsuffix
  obtain ⟨t, ht⟩ := hinit
  rcases eq_nil_or_concat t with rfl | ⟨t, b, rfl⟩
  · rw [← ht, append_nil]
  apply absurd _ h
  rw [concat_eq_append, ← append_assoc] at ht
  rw [← (append_inj' ht rfl).1]
  simp

/-- No two elements of a kind stand next to each other. -/
def Spread (a : α) (l : List α) : Prop :=
  l.IsChain fun b c => ¬ (b = a ∧ c = a)

theorem Spread.free (h : Spread a l) :
  Free [a, a] l
  := by
  rintro ⟨s, t, rfl⟩
  unfold Spread at h
  rw [append_assoc, isChain_append] at h
  have hpair := h.2.1
  rw [cons_append, cons_append, isChain_cons_cons] at hpair
  apply hpair.1
  exact ⟨rfl, rfl⟩

/-- Two elements as a separator are in no frame that keeps them apart, also from what follows. -/
theorem sole_pair (h : Spread a (p ++ [a])) :
  Sole [a, a] p
  := by
  rintro init ⟨t, ht⟩ hsuffix
  rcases eq_nil_or_concat t with rfl | ⟨t, b, rfl⟩
  · rw [← ht, append_nil]
  exfalso
  apply h.free
  have hsplit : init ++ t ++ [b] = p ++ [a] ++ [a] := by
    rw [concat_eq_append] at ht
    simp [ht]
  rw [← (append_inj' hsplit rfl).1]
  apply hsuffix.isInfix.trans
  apply prefix_append _ _ |>.isInfix

/-- Lines that are not empty and have no line break in them keep the line breaks apart. -/
theorem spread_lines {ls : List (List α)} (hls : ∀ l ∈ ls, l ≠ [] ∧ a ∉ l) :
  Spread a (ls.flatMap fun l => l ++ [a])
  := by
  induction ls with
  | nil => exact List.IsChain.nil
  | cons l ls ih =>
  obtain ⟨hne, hl⟩ := hls l mem_cons_self
  have hline : Spread a (l ++ [a]) := by
    unfold Spread
    rw [isChain_append]
    refine ⟨?_, isChain_singleton a, ?_⟩
    · rw [isChain_iff_forall_rel_of_append_cons_cons]
      rintro b c l₁ l₂ rfl ⟨rfl, -⟩
      apply hl
      simp
    intro b hb c _ hboth
    apply hl
    rw [← hboth.1]
    apply mem_of_getLast? hb
  have hrest := ih fun m hm => hls m (mem_cons_of_mem l hm)
  unfold Spread at hline hrest ⊢
  rw [flatMap_cons, isChain_append]
  refine ⟨hline, hrest, ?_⟩
  intro b _ c hc hboth
  cases ls with
  | nil => cases hc
  | cons m ms =>
  obtain ⟨hne', hm⟩ := hls m (by simp)
  obtain ⟨d, m, rfl⟩ := exists_cons_of_ne_nil hne'
  rw [flatMap_cons] at hc
  cases hc
  apply hm
  rw [← hboth.2]
  apply mem_cons_self

/-- Frames with their separators, and something without one, are cut into these. -/
theorem frames_flatMap (hsep : sep ≠ []) {ps : List (List α)} (hps : ∀ p ∈ ps, Sole sep p)
    {r : List α} (hr : Free sep r) :
  frames sep [] (ps.flatMap (fun p => p ++ sep) ++ r) = (ps, r)
  := by
  induction ps with
  | nil => rw [flatMap_nil, nil_append, frames_of_free hr, nil_append]
  | cons p ps ih =>
    have hrest := ih fun q hq => hps q (mem_cons_of_mem p hq)
    rw [flatMap_cons, append_assoc, frames_sole hsep (hps p mem_cons_self), hrest]

/-- The separator does not occur in what is left. -/
theorem free_frames (hsep : sep ≠ []) (h : Free sep buffer) (l : List α) :
  Free sep (frames sep buffer l).2
  := by
  induction l generalizing buffer with
  | nil => exact h
  | cons a l ih =>
  rw [frames]
  split
  · apply ih
    intro hinfix
    apply hsep (eq_nil_of_infix_nil hinfix)
  rename_i hnot
  apply ih
  rintro ⟨s, t, hst⟩
  rcases eq_nil_or_concat t with rfl | ⟨t, b, rfl⟩
  · apply hnot
    rw [isSuffixOf_iff_suffix]
    rw [append_nil] at hst
    use s
  apply h
  rw [concat_eq_append, ← append_assoc] at hst
  use s, t
  exact (append_inj' hst rfl).1

/-- What is left of a stream is cut with what comes next as the whole is. -/
theorem frames_free_append (h : Free sep buffer) (t : List α) :
  frames sep [] (buffer ++ t) = frames sep buffer t
  := by
  have hbuf : frames sep [] buffer = ([], buffer) := frames_of_free h
  rw [frames_append, hbuf]
  rfl

theorem free_rest (hsep : sep ≠ []) (l : List α) :
  Free sep (rest sep l)
  := by
  apply free_frames hsep
  intro hinfix
  apply hsep (eq_nil_of_infix_nil hinfix)

/-- The buffer holds what is left of the stream so far: with what comes next it is cut as the whole
stream is. -/
theorem frames_rest_append (hsep : sep ≠ []) (s t : List α) :
  frames sep [] (s ++ t) =
    (pieces sep s ++ pieces sep (rest sep s ++ t), rest sep (rest sep s ++ t))
  := by
  have hfree : Free sep (frames sep [] s).2 := free_rest hsep s
  rw [frames_append]
  unfold pieces rest
  rw [frames_free_append hfree]

theorem pieces_append (hsep : sep ≠ []) (s t : List α) :
  pieces sep (s ++ t) = pieces sep s ++ pieces sep (rest sep s ++ t)
  := congrArg Prod.fst (frames_rest_append hsep s t)

theorem rest_append (hsep : sep ≠ []) (s t : List α) :
  rest sep (s ++ t) = rest sep (rest sep s ++ t)
  := by
  rw [rest, frames_rest_append hsep]

/-- What stands in front of a buffer, where one element is the separator, becomes the start of the
next frame. -/
theorem frames_singleton_append (a : α) (u v l : List α) :
  frames [a] (u ++ v) l = ((frames [a] v l).1.modifyHead (u ++ ·),
      if (frames [a] v l).1 = [] then u ++ (frames [a] v l).2 else (frames [a] v l).2)
  := by
  have hends : ∀ (w : List α) (b : α), [a].isSuffixOf (w ++ [b]) ↔ b = a := by
    intro w b
    rw [isSuffixOf_iff_suffix]
    constructor
    · rintro ⟨t, ht⟩
      rw [List.cons.inj (append_inj' ht rfl).2 |>.1]
    · rintro rfl
      apply suffix_append
  have htake : ∀ (w : List α) (b : α), (w ++ [b]).take (w.length + 1 - [a].length) = w := by
    intro w b
    simp
  induction l generalizing v with
  | nil => simp [frames]
  | cons b l ih =>
  rw [frames, frames]
  by_cases hb : b = a
  · rw [if_pos ((hends _ _).mpr hb), if_pos ((hends _ _).mpr hb), htake, htake]
    rfl
  · rw [if_neg (hb ∘ (hends _ _).mp), if_neg (hb ∘ (hends _ _).mp), append_assoc, ih]

/-- A frame is no longer than the buffer it is in. -/
theorem length_frames (h : p ∈ (frames sep buffer l).1) :
  p.length ≤ buffer.length + l.length
  := by
  induction l generalizing buffer with
  | nil => cases h
  | cons a l ih =>
  rw [frames] at h
  split at h
  · rcases mem_cons.mp h with rfl | h
    · apply (length_take_le' _ _).trans
      simp
    · have hle := ih h
      simp only [length_nil, length_cons] at hle ⊢
      omega
  · have hle := ih h
    simp only [length_append, length_cons, length_nil] at hle ⊢
    omega

/-! ### Limits -/

/-- With everything that arrives the buffer stays within a limit. `size` measures the buffer, and
`past` is what has arrived before. -/
def Fits (sep : List α) (size : List α → ℕ) (limit : ℕ) : List α → List (List α) → Prop
  | _, [] => True
  | past, chunk :: chunks =>
    size (rest sep past ++ chunk) ≤ limit ∧ Fits sep size limit (past ++ chunk) chunks

instance Fits.decidable (sep : List α) (size : List α → ℕ) (limit : ℕ) :
    ∀ past chunks, Decidable (Fits sep size limit past chunks)
  | _, [] => isTrue trivial
  | past, chunk :: chunks =>
    haveI := Fits.decidable sep size limit (past ++ chunk) chunks
    inferInstanceAs (Decidable (_ ∧ _))

end Framing
