import VolundCode.Core.Runner
import VolundCode.Lib.Markup

/-!
# The untrusted wrapper

What `wrapUntrusted` makes of the content of a tool result has one start tag and one end tag,
whatever the tool answers. The source and the id of the tool use are written into quoted
attributes, but a quote is not written as an entity: the attributes are read back, and the wrapper
tells apart what it was made from, if and only if there is no quote in the source or the id, and
an id that is given is not empty (`genuine_iff`).
-/

namespace Core

open ProviderKit Occurrences List

/-- What `wrapUntrusted` is called with. -/
structure Wrapping where
  parts : List ContentPart
  source : String
  toolUseId : Option String

namespace Wrapping

/-- What is wrapped. -/
def body (w : Wrapping) : String :=
  String.intercalate "\n" (w.parts.map wrappedText)

/-- The wrapper. -/
def content (w : Wrapping) : List ContentPart :=
  wrapUntrusted w.parts w.source w.toolUseId

/-- A text has one start tag and one end tag, and the attributes of the start tag are those the
wrapper was made with. -/
structure Bears (w : Wrapping) (text : String) : Prop where
  opening : (positions "<untrusted".toList text.toList).length = 1
  closing : (positions "</untrusted>".toList text.toList).length = 1
  attributes : ∃ as, Markup.startTag "untrusted" text = some as ∧
    as.lookup "source" = some w.source ∧ as.lookup "toolUseId" = w.toolUseId

/-- The wrapper is a text that bears what it was made with. -/
def Faithful (w : Wrapping) : Prop :=
  ∃ text, w.content = [.text text] ∧ w.Bears text

/-- What the wrapper has to tell apart. -/
def origin (w : Wrapping) : String × Option String × String :=
  (w.source, w.toolUseId, w.body)

/-- Two wrappers bear what they were made with, and are different if that is. -/
structure Genuine (v w : Wrapping) : Prop where
  left : v.Faithful
  right : w.Faithful
  apart : v.origin ≠ w.origin → v.content ≠ w.content

/-- There is no quote in the source or the id, and an id is not empty. -/
structure Unquoted (w : Wrapping) : Prop where
  source : '"' ∉ w.source.toList
  toolUseId : ∀ id, w.toolUseId = some id → id ≠ "" ∧ '"' ∉ id.toList

/-! ### The text -/

/-- The attribute with the id. -/
def idAttribute (w : Wrapping) : String :=
  match w.toolUseId with
  | some toolUseId => if toolUseId = "" then "" else " toolUseId=\"" ++ escape toolUseId ++ "\""
  | none => ""

/-- The characters of the attribute with the id. -/
def idText (w : Wrapping) : List Char :=
  match w.toolUseId with
  | some id => if id = "" then [] else " toolUseId=\"".toList ++ (Markup.escape id.toList ++ ['"'])
  | none => []

/-- What is between the opening bracket and the end tag. -/
def inside (w : Wrapping) : List Char :=
  "untrusted".toList ++ (" source=\"".toList ++ (Markup.escape w.source.toList ++
    '"' :: (w.idText ++ '>' :: '\n' :: (Markup.escape w.body.toList ++ ['\n']))))

theorem inside_eq (w : Wrapping) :
  w.inside = "untrusted".toList ++ (" source=\"".toList ++ (Markup.escape w.source.toList ++
    '"' :: (w.idText ++ '>' :: '\n' :: (Markup.escape w.body.toList ++ ['\n']))))
  := rfl

theorem toList_replaceAll (s : String) (c : Char) (t : String) :
  (Ecma.replaceAll s c t).toList = s.toList.flatMap fun d => if d = c then t.toList else [d]
  := String.toList_ofList

/-- The entities are written in one pass. -/
theorem toList_escape (text : String) :
  (escape text).toList = Markup.escape text.toList
  := by
  rw [escape, toList_replaceAll, toList_replaceAll, toList_replaceAll, flatMap_assoc, flatMap_assoc]
  unfold Markup.escape
  congr 1
  funext c
  rw [Markup.escapeChar]
  split_ifs with hamp hlt hgt
  · rfl
  · simp [hlt]
  · simp [hgt]
  · simp [hlt, hgt]

theorem toList_idAttribute (w : Wrapping) :
  w.idAttribute.toList = w.idText
  := by
  rw [idAttribute, idText]
  cases w.toolUseId with
  | none => rfl
  | some id =>
  dsimp only
  split_ifs with hempty
  · rfl
  · rw [String.toList_append, String.toList_append, toList_escape, append_assoc]
    rfl

/-- The text of the wrapper. -/
def text (w : Wrapping) : String :=
  String.ofList ('<' :: (w.inside ++ "</untrusted>".toList))

theorem toList_text (w : Wrapping) :
  w.text.toList = '<' :: (w.inside ++ "</untrusted>".toList)
  := String.toList_ofList

theorem content_eq (w : Wrapping) :
  w.content = [.text w.text]
  := by
  have hcont : w.content = [.text ("<untrusted source=\"" ++ escape w.source ++ "\"" ++
      w.idAttribute ++ ">\n" ++ escape w.body ++ "\n</untrusted>")] := rfl
  rw [hcont]
  apply congrArg fun t => [ContentPart.text t]
  apply String.toList_inj.mp
  have happ (a b c d e f g : String) : (a ++ b ++ c ++ d ++ e ++ f ++ g).toList =
      a.toList ++ (b.toList ++ (c.toList ++ (d.toList ++ (e.toList ++ (f.toList ++ g.toList))))) := by
    simp
  have hinside (a b c : List Char) : '<' :: ("untrusted".toList ++ (" source=\"".toList ++
      (a ++ '"' :: (b ++ '>' :: '\n' :: (c ++ ['\n'])))) ++ "</untrusted>".toList) =
      "<untrusted source=\"".toList ++ (a ++ ("\"".toList ++ (b ++ (">\n".toList ++
        (c ++ "\n</untrusted>".toList))))) := by
    rw [append_assoc, append_assoc, append_assoc, cons_append,
      append_assoc, cons_append, cons_append, append_assoc]
    rfl
  rw [happ, toList_escape, toList_escape, toList_idAttribute, toList_text]
  exact (hinside _ _ _).symm

/-! ### The tags -/

/-- Nothing opens a tag between the opening bracket and the end tag. -/
theorem not_mem_inside (w : Wrapping) :
  '<' ∉ w.inside
  := by
  have hescape (text : List Char) : '<' ∉ Markup.escape text :=
    Markup.not_mem_escape (Or.inl rfl) text
  have hid : '<' ∉ w.idText := by
    rw [idText]
    cases w.toolUseId with
    | none => simp
    | some id =>
    dsimp only
    split_ifs with hempty
    · simp
    · simp [hescape]
  intro h
  rw [inside_eq] at h
  simp [hescape, hid] at h

/-- There are one start tag and one end tag. -/
theorem positions_text (w : Wrapping) :
  (positions "<untrusted".toList w.text.toList).length = 1 ∧
    (positions "</untrusted>".toList w.text.toList).length = 1
  := by
  have hopening : "<untrusted".toList = '<' :: "untrusted".toList := rfl
  have hclosing : "</untrusted>".toList = '<' :: "/untrusted>".toList := rfl
  obtain ⟨hstart, hend⟩ := positions_enclosed "untrusted".toList w.not_mem_inside
    (show '<' ∉ "/untrusted>".toList by decide)
  rw [toList_text, hopening, hclosing]
  constructor
  · rw [hstart _ (by decide)]
    · rfl
    · rw [inside_eq]
      apply prefix_append
  · rw [hend]
    · rfl
    rw [inside_eq]
    intro h
    cases (cons_prefix_cons.mp h).1

/-! ### The attributes -/

/-- What follows the start tag. -/
def rest (w : Wrapping) : List Char :=
  '\n' :: (Markup.escape w.body.toList ++ "\n</untrusted>".toList)

/-- The attributes of the wrapper are read from its source on. -/
theorem startTag_text (w : Wrapping) :
  Markup.startTag "untrusted" w.text = Markup.attributes (.value "source".toList [])
      (Markup.escape w.source.toList ++ '"' :: (w.idText ++ '>' :: w.rest))
  := by
  have hinside : w.inside ++ "</untrusted>".toList = "untrusted".toList ++ (" source=\"".toList ++
      (Markup.escape w.source.toList ++ '"' :: (w.idText ++ '>' :: w.rest))) := by
    rw [inside_eq, append_assoc, append_assoc, append_assoc, cons_append,
      append_assoc, cons_append, cons_append, append_assoc]
    rfl
  have hpre : '<' :: "untrusted".toList <+: '<' :: (w.inside ++ "</untrusted>".toList) := by
    rw [hinside, cons_prefix_cons]
    use rfl
    apply prefix_append
  rw [Markup.startTag, toList_text, if_pos hpre, hinside]
  rfl

variable {w : Wrapping}

/-- The attribute with the id is read from the id on. -/
theorem attributes_idText {id : String} (hid : w.toolUseId = some id) (hne : id ≠ "") :
  Markup.attributes .between (w.idText ++ '>' :: w.rest) =
    Markup.attributes (.value "toolUseId".toList [])
      (Markup.escape id.toList ++ '"' :: '>' :: w.rest)
  := by
  rw [idText, hid]
  dsimp only
  rw [if_neg hne, append_assoc, append_assoc]
  rfl

/-- No attribute is read where there is no id. -/
theorem attributes_of_empty (h : w.toolUseId = none ∨ w.toolUseId = some "") :
  Markup.attributes .between (w.idText ++ '>' :: w.rest) = some []
  := by
  rw [idText]
  rcases h with h | h
  · rw [h]
    rfl
  · rw [h]
    rfl

/-- The wrapper bears what it was made with if and only if nothing in it is taken for the end of an
attribute. -/
theorem bears_text_iff (w : Wrapping) :
  w.Bears w.text ↔ w.Unquoted
  := by
  constructor
  · intro hbears
    obtain ⟨as, hstart, hsrc, hid⟩ := hbears.attributes
    rw [startTag_text] at hstart
    have hquote : '"' ∉ w.source.toList := by
      intro h
      obtain ⟨value, as', hvalue, rfl⟩ := Markup.attributes_escape_of_mem h hstart
      apply hvalue
      rw [String.ofList_toList]
      exact Option.some.inj hsrc
    use hquote
    rw [Markup.attributes_escape hquote] at hstart
    obtain ⟨as', has', rfl⟩ := Option.map_eq_some_iff.mp hstart
    have hlook : as'.lookup "toolUseId" = w.toolUseId := hid
    intro id hsome
    by_cases hne : id = ""
    · rw [attributes_of_empty (Or.inr (hne ▸ hsome))] at has'
      cases has'
      rw [hsome] at hlook
      cases hlook
    use hne
    intro h
    rw [attributes_idText hsome hne] at has'
    obtain ⟨value, as'', hvalue, rfl⟩ := Markup.attributes_escape_of_mem h has'
    apply hvalue
    rw [String.ofList_toList]
    rw [hsome] at hlook
    exact Option.some.inj hlook
  intro h
  use w.positions_text.1, w.positions_text.2
  rw [startTag_text, Markup.attributes_escape h.source]
  cases hid : w.toolUseId with
  | none =>
    rw [attributes_of_empty (Or.inl hid)]
    exact ⟨_, rfl, congrArg some String.ofList_toList, rfl⟩
  | some id =>
    obtain ⟨hne, hquote⟩ := h.toolUseId id hid
    rw [attributes_idText hid hne, Markup.attributes_escape hquote, Markup.attributes]
    exact ⟨_, rfl, congrArg some String.ofList_toList, congrArg some String.ofList_toList⟩

theorem faithful_iff (w : Wrapping) :
  w.Faithful ↔ w.Unquoted
  := by
  rw [← bears_text_iff]
  constructor
  · rintro ⟨text, htext, hbears⟩
    rw [content_eq] at htext
    rw [ContentPart.text.inj (List.cons.inj htext).1]
    apply hbears
  · intro h
    use w.text, w.content_eq

/-! ### The wrappers are told apart -/

/-- A text that bears two sources and ids bears the same ones. -/
theorem Bears.unique {v : Wrapping} {text : String} (hv : v.Bears text) (hw : w.Bears text) :
  v.source = w.source ∧ v.toolUseId = w.toolUseId
  := by
  obtain ⟨as, hstart, hsrc, hid⟩ := hv.attributes
  obtain ⟨as', hstart', hsrc', hid'⟩ := hw.attributes
  obtain rfl := Option.some.inj (hstart.symm.trans hstart')
  constructor
  · exact Option.some.inj (hsrc.symm.trans hsrc')
  · exact hid.symm.trans hid'

/-- Two wrappers with the same source and id and the same text have the same body. -/
theorem body_eq {v : Wrapping} (hsrc : v.source = w.source) (hid : v.toolUseId = w.toolUseId)
    (htext : v.text = w.text) :
  v.body = w.body
  := by
  have hidText : v.idText = w.idText := by
    rw [idText, idText, hid]
  have hlist := congrArg String.toList htext
  rw [toList_text, toList_text, inside_eq, inside_eq, hsrc, hidText, cons_inj_right,
    append_cancel_right_eq, append_cancel_left_eq, append_cancel_left_eq,
    append_cancel_left_eq, cons_inj_right, append_cancel_left_eq,
    cons_inj_right, cons_inj_right, append_cancel_right_eq] at hlist
  exact String.toList_inj.mp (Markup.escape_injective hlist)

/-- Two wrappers bear what they were made with and are told apart if and only if there is no quote
in their sources and ids and an id that is given is not empty. -/
theorem genuine_iff (v w : Wrapping) :
  Genuine v w ↔ v.Unquoted ∧ w.Unquoted
  := by
  constructor
  · intro h
    exact ⟨v.faithful_iff.mp h.left, w.faithful_iff.mp h.right⟩
  rintro ⟨hv, hw⟩
  use v.faithful_iff.mpr hv, w.faithful_iff.mpr hw
  intro horigin hcont
  apply horigin
  rw [content_eq, content_eq] at hcont
  have htext : v.text = w.text := ContentPart.text.inj (List.cons.inj hcont).1
  have hbears := v.bears_text_iff.mpr hv
  rw [htext] at hbears
  obtain ⟨hsrc, hid⟩ := hbears.unique (w.bears_text_iff.mpr hw)
  rw [origin, origin, hsrc, hid, body_eq hsrc hid htext]

/-- A source with a quote in it is taken for another source with an id. -/
theorem not_genuine :
  ¬ Genuine ⟨[.text "done"], "tool:a\" toolUseId=\"b", none⟩ ⟨[.text "done"], "tool:a", some "b"⟩
  := by
  intro h
  apply h.apart
  · intro heq
    cases (Prod.mk.inj (Prod.mk.inj heq).2).1
  · rw [content_eq, content_eq]
    apply congrArg fun t => [ContentPart.text t]
    decide +kernel

end Wrapping

end Core
