import Mathlib.Data.List.Basic

/-!
# Front matter

A text that begins with a fence, a line `---`, has the lines up to the next fence as its front
matter, and what stands behind that fence as its content. A line ends at a line feed, or at a
carriage return and a line feed. The two parts of a text are found again in what they make
together, if no line of the front matter is a fence (`split_join`).
-/

namespace Frontmatter

/-- The text behind the fence that a text begins with. -/
def afterOpen : List Char → Option (List Char)
  | '-' :: '-' :: '-' :: '\n' :: s => some s
  | '-' :: '-' :: '-' :: '\r' :: '\n' :: s => some s
  | _ => none

/-- The text behind the line feed and the fence that a text begins with. -/
def afterClose : List Char → Option (List Char)
  | '\n' :: s => afterOpen s
  | _ => none

/-- The text before the first line feed with a fence behind it, and the text behind that fence. -/
def splitClose : List Char → Option (List Char × List Char)
  | [] => none
  | c :: s =>
    match afterClose (c :: s) with
    | some content => some ([], content)
    | none => (splitClose s).map fun (matter, content) => (c :: matter, content)

/-- The front matter, without its last line feed, and the content of a text. -/
def split (s : List Char) : Option (List Char × List Char) :=
  (afterOpen s).bind splitClose

/-- The text with this front matter and this content. -/
def join (matter content : List Char) : List Char :=
  '-' :: '-' :: '-' :: '\n' :: (matter ++ '-' :: '-' :: '-' :: '\n' :: content)

/-- No line but the first is a fence. -/
def Unfenced (s : List Char) : Prop :=
  splitClose s = none

instance (s : List Char) : Decidable (Unfenced s) :=
  inferInstanceAs (Decidable (splitClose s = none))

variable {s : List Char}

theorem afterOpen_eq_some {t : List Char} :
  afterOpen s = some t ↔
    s = '-' :: '-' :: '-' :: '\n' :: t ∨ s = '-' :: '-' :: '-' :: '\r' :: '\n' :: t
  := by
  constructor
  · intro h
    unfold afterOpen at h
    split at h
    · cases h
      apply Or.inl rfl
    · cases h
      apply Or.inr rfl
    · cases h
  · rintro (rfl | rfl)
    · rfl
    · rfl

/-- A line that ends within a text, and is no fence there, is none with more text behind it. -/
theorem afterOpen_append {t : List Char} (h : afterOpen (s ++ ['\n']) = none) :
  afterOpen (s ++ '\n' :: t) = none
  := by
  rw [Option.eq_none_iff_forall_ne_some]
  intro u hu
  -- The fence would have to end at the line feed or before it.
  rcases afterOpen_eq_some.mp hu with heq | heq
  all_goals
    rcases s with _ | ⟨a, _ | ⟨b, _ | ⟨c, _ | ⟨d, s⟩⟩⟩⟩
  · simp at heq
  · simp at heq
  · simp at heq
  · obtain ⟨rfl, rfl, rfl, -⟩ := by simpa using heq
    cases h
  · obtain ⟨rfl, rfl, rfl, rfl, -⟩ := by simpa using heq
    cases h
  · simp at heq
  · simp at heq
  · simp at heq
  · simp at heq
  obtain ⟨rfl, rfl, rfl, rfl, hs⟩ := by simpa using heq
  rcases s with _ | ⟨e, s⟩
  · cases h
  · obtain ⟨rfl, -⟩ := by simpa using hs
    cases h

theorem afterClose_append {c : Char} {t : List Char} (h : afterClose (c :: (s ++ ['\n'])) = none) :
  afterClose (c :: (s ++ '\n' :: t)) = none
  := by
  by_cases hc : c = '\n'
  · subst hc
    apply afterOpen_append h
  · rw [afterClose]
    intro _ heq
    apply hc (List.cons.inj heq).1

/-- The first closing fence behind a text without fences is the one put there. -/
theorem splitClose_append {content : List Char} (h : Unfenced (s ++ ['\n'])) :
  splitClose (s ++ '\n' :: '-' :: '-' :: '-' :: '\n' :: content) = some (s, content)
  := by
  induction s with
  | nil => rfl
  | cons c s ih =>
  rw [Unfenced, List.cons_append, splitClose] at h
  cases hclose : afterClose (c :: (s ++ ['\n'])) with
  | some _ =>
    rw [hclose] at h
    cases h
  | none =>
  rw [hclose] at h
  have hs := ih (Option.map_eq_none_iff.mp h)
  rw [List.cons_append, splitClose, afterClose_append hclose]
  simp only [hs, Option.map_some]

/-- The parts of a text are found again, if no line of the front matter is a fence. -/
theorem split_join {matter content : List Char} (h : Unfenced (matter ++ ['\n'])) :
  split (join (matter ++ ['\n']) content) = some (matter, content)
  := by
  rw [join, List.append_assoc, List.singleton_append, split, afterOpen, Option.bind_some,
    splitClose_append h]

end Frontmatter
