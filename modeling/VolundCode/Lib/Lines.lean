import Mathlib.Data.List.Basic

/-!
# Lines

The lines of a text as a line reader of ECMAScript finds them: a line ends at a line feed, a
carriage return, both in turn, or at a line or paragraph separator. Texts without any of these,
each with a line feed behind it, are the lines of what they make together (`lines_flatMap`).
-/

namespace Lines

open List

/-- The characters at which a line ends. -/
def isBreak (c : Char) : Bool :=
  c = '\n' || c = '\r' || c = '\u2028' || c = '\u2029'

/-- The lines of a text, where the first of them has begun already. -/
def linesAfter : List Char → List Char → List (List Char)
  | line, [] => if line = [] then [] else [line]
  | line, '\r' :: '\n' :: s => line :: linesAfter [] s
  | line, c :: s => if isBreak c then line :: linesAfter [] s else linesAfter (line ++ [c]) s

/-- The lines of a text. -/
def lines (s : List Char) : List (List Char) :=
  linesAfter [] s

/-- The text has no line break. -/
def Unbroken (s : List Char) : Prop :=
  ∀ c ∈ s, isBreak c = false

instance (s : List Char) : Decidable (Unbroken s) :=
  List.decidableBAll (fun c => isBreak c = false) s

variable {s : List Char}

/-- A character that ends no line belongs to the line. -/
theorem linesAfter_cons {line : List Char} {c : Char} (hc : isBreak c = false) :
  linesAfter line (c :: s) = linesAfter (line ++ [c]) s
  := by
  have hne : c ≠ '\r' := by
    rintro rfl
    cases hc
  rw [linesAfter.eq_3 _ _ _ (fun _ h => absurd h hne), hc]
  rfl

/-- A text without line breaks belongs to the line. -/
theorem linesAfter_append {line t : List Char} (hs : Unbroken s) :
  linesAfter line (s ++ t) = linesAfter (line ++ s) t
  := by
  induction s generalizing line with
  | nil => rw [nil_append, append_nil]
  | cons c s ih =>
    rw [cons_append, linesAfter_cons (hs c mem_cons_self),
      ih fun d hd => hs d (mem_cons_of_mem c hd), append_assoc, singleton_append]

/-- A text without line breaks and the line feed behind it are a line. -/
theorem lines_line {t : List Char} (hs : Unbroken s) :
  lines (s ++ '\n' :: t) = s :: lines t
  := by
  rw [lines, linesAfter_append hs, nil_append]
  rfl

/-- A text without line breaks at the end of all is a line, unless it is empty. -/
theorem lines_last (hs : Unbroken s) :
  lines s = if s = [] then [] else [s]
  := by
  have h : linesAfter [] (s ++ []) = linesAfter ([] ++ s) [] := linesAfter_append hs
  rw [append_nil, nil_append] at h
  rw [lines, h, linesAfter]

/-- Texts without line breaks are the lines of what they make, each with a line feed behind it. -/
theorem lines_flatMap {ss : List (List Char)} {t : List Char} (hss : ∀ s ∈ ss, Unbroken s) :
  lines (ss.flatMap (· ++ ['\n']) ++ t) = ss ++ lines t
  := by
  induction ss with
  | nil => rfl
  | cons s ss ih =>
    have hs := hss s mem_cons_self
    rw [flatMap_cons, append_assoc, append_assoc, singleton_append,
      lines_line hs, ih fun u hu => hss u (mem_cons_of_mem s hu), cons_append]

end Lines
