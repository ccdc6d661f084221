import VolundCode.Lib.Occurrences

/-!
# Marked texts

A text between a start tag and an end tag, in which the characters of the tags are written as
entities. What is written so is read back (`decode_escape`), and has no tag in it
(`not_mem_escape`). The attributes of a start tag are read from quote to quote (`attributes`), so
that a value without a quote is read back (`attributes_value`).
-/

namespace Markup

open List

/-! ### Entities -/

/-- How a character is written. -/
def escapeChar (c : Char) : List Char :=
  if c = '&' then ['&', 'a', 'm', 'p', ';']
  else if c = '<' then ['&', 'l', 't', ';']
  else if c = '>' then ['&', 'g', 't', ';']
  else [c]

/-- How a text is written. -/
def escape (text : List Char) : List Char :=
  text.flatMap escapeChar

/-- What a text with entities stands for. -/
def decode : List Char → List Char
  | '&' :: 'a' :: 'm' :: 'p' :: ';' :: rest => '&' :: decode rest
  | '&' :: 'l' :: 't' :: ';' :: rest => '<' :: decode rest
  | '&' :: 'g' :: 't' :: ';' :: rest => '>' :: decode rest
  | '&' :: 'q' :: 'u' :: 'o' :: 't' :: ';' :: rest => '"' :: decode rest
  | c :: rest => c :: decode rest
  | [] => []

theorem escape_append (text rest : List Char) :
  escape (text ++ rest) = escape text ++ escape rest
  := flatMap_append

theorem escape_quote (text : List Char) :
  escape ('"' :: text) = '"' :: escape text
  := rfl

theorem decode_cons {c : Char} (hc : c ≠ '&') (rest : List Char) :
  decode (c :: rest) = c :: decode rest
  := by
  rw [decode]
  all_goals
    intros
    apply hc
    assumption

/-- What is written is read back. -/
theorem decode_escape (text : List Char) :
  decode (escape text) = text
  := by
  induction text with
  | nil => rfl
  | cons c text ih =>
  have hescape : escape (c :: text) = escapeChar c ++ escape text := rfl
  rw [hescape, escapeChar]
  split_ifs with hamp hlt hgt
  · rw [hamp, ← ih]
    simp [decode, ih]
  · rw [hlt]
    simp [decode, ih]
  · rw [hgt]
    simp [decode, ih]
  · rw [singleton_append, decode_cons hamp, ih]

/-- Texts that are written alike are equal. -/
theorem escape_injective : Function.Injective escape := by
  intro text rest h
  rw [← decode_escape text, h, decode_escape]

/-- The characters of the tags are not written. -/
theorem not_mem_escape {c : Char} (hc : c = '<' ∨ c = '>') (text : List Char) :
  c ∉ escape text
  := by
  intro h
  obtain ⟨d, -, hd⟩ := mem_flatMap.mp h
  rw [escapeChar] at hd
  split_ifs at hd with hamp hlt hgt
  · rcases hc with rfl | rfl
    all_goals simp at hd
  · rcases hc with rfl | rfl
    all_goals simp at hd
  · rcases hc with rfl | rfl
    all_goals simp at hd
  rw [mem_singleton] at hd
  rcases hc with rfl | rfl
  · apply hlt hd.symm
  · apply hgt hd.symm

/-- A quote is written as it is. -/
theorem quote_mem_escape {text : List Char} (h : '"' ∈ escape text) :
  '"' ∈ text
  := by
  obtain ⟨d, hmem, hd⟩ := mem_flatMap.mp h
  rw [escapeChar] at hd
  split_ifs at hd with hamp hlt hgt
  · simp at hd
  · simp at hd
  · simp at hd
  · rw [mem_singleton] at hd
    rw [hd]
    apply hmem

/-! ### Attributes -/

/-- Where the reader of a start tag is: between attributes, in the name of an attribute, or in its
value, with what it has read of them. -/
inductive Place where
  | between
  | name (read : List Char)
  | value (name read : List Char)

/-- The attributes in the rest of a start tag, with their entities decoded. -/
def attributes : Place → List Char → Option (List (String × String))
  | .between, '>' :: _ => some []
  | .between, ' ' :: rest => attributes (.name []) rest
  | .name read, '=' :: '"' :: rest => attributes (.value read []) rest
  | .name read, c :: rest => attributes (.name (read ++ [c])) rest
  | .value name read, '"' :: rest =>
    (attributes .between rest).map fun as =>
      (String.ofList name, String.ofList (decode read)) :: as
  | .value name read, c :: rest => attributes (.value name (read ++ [c])) rest
  | _, _ => none

/-- The attributes of the start tag with which a text begins. -/
def startTag (name text : String) : Option (List (String × String)) :=
  if '<' :: name.toList <+: text.toList then
    attributes .between (text.toList.drop (name.toList.length + 1))
  else none

/-- A value goes to the next quote. -/
theorem attributes_value {name read value : List Char} (h : '"' ∉ value) (rest : List Char) :
  attributes (.value name read) (value ++ '"' :: rest) = (attributes .between rest).map fun as =>
      (String.ofList name, String.ofList (decode (read ++ value))) :: as
  := by
  induction value generalizing read with
  | nil => rw [nil_append, attributes, append_nil]
  | cons c value ih =>
  rw [mem_cons, not_or] at h
  have hc : ¬ c = '"' := fun hc => h.1 hc.symm
  rw [cons_append, attributes, ih h.2, append_assoc, singleton_append]
  intro hq
  apply hc hq

/-- A value without a quote is read back. -/
theorem attributes_escape {name value : List Char} (h : '"' ∉ value) (rest : List Char) :
  attributes (.value name []) (escape value ++ '"' :: rest) =
    (attributes .between rest).map fun as => (String.ofList name, String.ofList value) :: as
  := by
  rw [attributes_value, nil_append, decode_escape]
  intro hq
  apply h (quote_mem_escape hq)

/-- A value with a quote is read up to it only. -/
theorem attributes_escape_of_mem {name value rest : List Char} {as : List (String × String)}
    (h : '"' ∈ value) (has : attributes (.value name []) (escape value ++ '"' :: rest) = some as) :
  ∃ value' as', value' ≠ String.ofList value ∧ as = (String.ofList name, value') :: as'
  := by
  obtain ⟨before, after, rfl, hpre⟩ := eq_append_cons_of_mem h
  rw [escape_append, escape_quote, append_assoc, cons_append, attributes_escape hpre] at has
  obtain ⟨as', -, rfl⟩ := Option.map_eq_some_iff.mp has
  use String.ofList before, as'
  constructor
  · intro heq
    have hlen := congrArg List.length (String.ofList_inj.mp heq)
    rw [length_append, length_cons] at hlen
    omega
  · rfl

end Markup
