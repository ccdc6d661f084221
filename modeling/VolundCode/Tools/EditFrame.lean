import VolundCode.Lib.Members
import VolundCode.Tools.Edit

/-!
# Edits of files

The tools `Edit` and `MultiEdit` decode the bytes of a file, edit the text and encode the whole of
it again. What is around the places that were matched keeps its bytes exactly where the bytes are
those of a text and neither a match nor its replacement cuts or completes a surrogate pair of the
text around it (`frame_iff`).
-/

namespace Tools

open CodeUnits

/-- The parts of a text around the places that an edit matches, and what it puts there. -/
structure Match where
  parts : List Text
  replacement : Text

/-- The first place. -/
def matchOnce (o n t : Text) : Match :=
  match Occurrences.cut o t with
  | none => { parts := [t], replacement := n }
  | some (x, y) => { parts := [x, y], replacement := getSubstitution o x y n }

/-- What `EditTool` matches. -/
def EditTool.matched (i : EditInput) (t : Text) : Match :=
  if i.replaceAll then { parts := split i.oldString t, replacement := i.newString }
  else matchOnce i.oldString i.newString t

/-- The bytes `EditTool` writes to the file `p`. -/
def EditTool.content (p : String) (i : EditInput) (bytes : List UInt8) :
    Except EditError (List UInt8) :=
  (EditTool.edited p i (decode bytes)).map encode

/-- The bytes `MultiEditTool` writes to a file. -/
def MultiEditTool.content (path : String) (edits : List Edit) (bytes : List UInt8) :
    Except EditError (List UInt8) :=
  (MultiEditTool.edited path edits (decode bytes)).map encode

/-- The edits of each file, in the order in which the files are named first. A path may be
refused. -/
def MultiEditTool.grouped (safeMutationPath : String → Option String)
    (edits : List (String × Edit)) : Option (List (String × List Edit)) :=
  edits.foldlM (fun grouped edit =>
    (safeMutationPath edit.1).map fun path =>
      Members.put grouped path ((Members.get grouped path).getD [] ++ [edit.2])) []

/-- The errors of `MultiEditTool` before the files are changed. -/
inductive MultiEditError where
  | unsafePath
  | unreadable (path : String)
  | edit (e : EditError)

/-- What `MultiEditTool` writes to the files. -/
def MultiEditTool.updates (safeMutationPath : String → Option String)
    (relative : String → String) (files : String → Option (List UInt8))
    (edits : List (String × Edit)) : Except MultiEditError (List (String × List UInt8)) :=
  match MultiEditTool.grouped safeMutationPath edits with
  | none => .error .unsafePath
  | some grouped =>
    grouped.mapM fun group =>
      match files group.1 with
      | none => .error (.unreadable group.1)
      | some bytes =>
        match MultiEditTool.content (relative group.1) group.2 bytes with
        | .error e => .error (.edit e)
        | .ok next => .ok (group.1, next)

/-! ### Frames -/

/-- The old bytes are those of the parts with those of the old string between them, and the new
bytes are those of the parts with those of the replacement. -/
def Framed (m : Match) (o : Text) (bytes next : List UInt8) : Prop :=
  bytes = (encode o).intercalate (m.parts.map encode) ∧
    next = (encode m.replacement).intercalate (m.parts.map encode)

/-- Neither the old string nor the replacement makes or cuts a pair with the parts. -/
def Unbroken (m : Match) (o : Text) : Prop :=
  Apart (m.parts.intersperse o) ∧ Apart (m.parts.intersperse m.replacement)

/-- The bytes are those of a text. -/
def Valid (bytes : List UInt8) : Prop :=
  encode (decode bytes) = bytes

/-- One edit after another changes the bytes of a text only where it matches. -/
def FramedEdits (path : String) : List Edit → Text → List UInt8 → List UInt8 → Prop
  | [], _, bytes, next => next = bytes
  | edit :: edits, content, bytes, next =>
    ∃ content', MultiEditTool.editedOnce path content edit = .ok content' ∧
      Framed (matchOnce edit.oldString edit.newString content) edit.oldString bytes
        (encode content') ∧
      FramedEdits path edits content' (encode content') next

/-- No edit makes or cuts a pair. -/
def UnbrokenEdits (path : String) : List Edit → Text → Prop
  | [], _ => True
  | edit :: edits, content =>
    ∀ content', MultiEditTool.editedOnce path content edit = .ok content' →
      Unbroken (matchOnce edit.oldString edit.newString content) edit.oldString ∧
        UnbrokenEdits path edits content'

/-- A match in a text, and the text that it makes. -/
structure Matches (m : Match) (o t next : Text) : Prop where
  before : t = join o m.parts
  after : next = join m.replacement m.parts

variable {o t : Text}

theorem matches_once {n : Text} (h : Occurrences.cut o t ≠ none) :
  Matches (matchOnce o n t) o t (replace o n t)
  := by
  unfold matchOnce replace
  cases hcut : Occurrences.cut o t with
  | none => cases h hcut
  | some q =>
  constructor
  · rw [(Occurrences.cut_eq_some hcut).1]
    simp [join]
  · simp [join]

/-- What is found can be cut. -/
theorem cut_ne_none (h : countOf o t ≠ 0) :
  Occurrences.cut o t ≠ none
  := by
  by_cases ho : o = []
  · subst ho
    rw [Ne, Occurrences.cut_eq_none_iff, not_not]
    apply List.nil_infix
  · rw [Ne, ← countOf_eq_zero ho]
    apply h

theorem join_split_nil (t : Text) :
  join [] (split [] t) = t
  := by
  rw [split, if_pos rfl, join]
  induction t with
  | nil => rfl
  | cons unit t ih =>
  cases t with
  | nil => simp
  | cons unit' t =>
    rw [List.map_cons] at ih ⊢
    rw [List.map_cons, List.intercalate_cons_cons, ih]
    rfl

variable {next : Text}

theorem matches_edit {p : String} {i : EditInput} (h : EditTool.edited p i t = .ok next) :
  Matches (EditTool.matched i t) i.oldString t next
  := by
  obtain ⟨path, o, n, all⟩ := i
  unfold EditTool.matched
  cases all with
  | true =>
    obtain ⟨-, -, rfl⟩ := editedAll_eq_ok_iff.mp h
    constructor
    · by_cases ho : o = []
      · subst ho
        exact (join_split_nil t).symm
      · exact (join_split ho t).symm
    · rfl
  | false =>
    obtain ⟨-, hcount, rfl⟩ := edited_eq_ok_iff.mp h
    have hfound : countOf o t ≠ 0 := by omega
    apply matches_once (cut_ne_none hfound)

theorem matches_editedOnce {path : String} {edit : Edit}
    (h : MultiEditTool.editedOnce path t edit = .ok next) :
  Matches (matchOnce edit.oldString edit.newString t) edit.oldString t next
  := by
  unfold MultiEditTool.editedOnce at h
  dsimp only at h
  split_ifs at h with hsame hzero hmany
  cases h
  apply matches_once
  apply cut_ne_none hzero

/-- The bytes of texts with those of a text between them. -/
theorem intercalate_encode (o : Text) (parts : List Text) :
  (encode o).intercalate (parts.map encode) = ((parts.intersperse o).map encode).flatten
  := by
  induction parts with
  | nil => rfl
  | cons part parts ih =>
  cases parts with
  | nil => simp
  | cons part' parts =>
    rw [List.map_cons] at ih ⊢
    rw [List.map_cons, List.intercalate_cons_cons, ih, List.intersperse_cons_cons]
    simp

/-- A match in the text of bytes keeps what is around it where the bytes are those of a text and no
pair is broken. -/
theorem Matches.framed_iff {m : Match} {bytes : List UInt8} (h : Matches m o (decode bytes) next) :
  Framed m o bytes (encode next) ↔ Valid bytes ∧ Unbroken m o
  := by
  have hpre : decode bytes = (m.parts.intersperse o).flatten := h.before
  have hafter : next = (m.parts.intersperse m.replacement).flatten := h.after
  unfold Framed Valid Unbroken
  rw [intercalate_encode, intercalate_encode, hafter, encode_flatten_iff, hpre]
  constructor
  · rintro ⟨hbytes, hnew⟩
    have hvalid := encode_decode_pieces (m.parts.intersperse o)
    rw [← hbytes, hpre] at hvalid
    refine ⟨hvalid, ?_, hnew⟩
    apply encode_flatten_iff.mp
    rw [hvalid, hbytes]
  · rintro ⟨hvalid, hold, hnew⟩
    refine ⟨?_, hnew⟩
    rw [← encode_flatten_iff.mpr hold, hvalid]

/-- The same where the text is known. -/
theorem Matches.framed_encode_iff {m : Match} (h : Matches m o t next) :
  Framed m o (encode t) (encode next) ↔ Unbroken m o
  := by
  have hpre : t = (m.parts.intersperse o).flatten := h.before
  have hafter : next = (m.parts.intersperse m.replacement).flatten := h.after
  unfold Framed Unbroken
  rw [intercalate_encode, intercalate_encode, hafter, hpre, encode_flatten_iff,
    encode_flatten_iff]

/-- The edits of a text. -/
theorem framedEdits_encode_iff {path : String} {edits : List Edit}
    (h : MultiEditTool.edited path edits t = .ok next) :
  FramedEdits path edits t (encode t) (encode next) ↔ UnbrokenEdits path edits t
  := by
  induction edits generalizing t with
  | nil =>
    cases h
    simp [FramedEdits, UnbrokenEdits]
  | cons edit edits ih =>
  unfold MultiEditTool.edited at h
  rw [List.foldlM_cons] at h
  cases honce : MultiEditTool.editedOnce path t edit with
  | error e =>
    rw [honce] at h
    cases h
  | ok t' =>
  rw [honce] at h
  have hmatches := matches_editedOnce honce
  have hrest := ih h
  unfold FramedEdits UnbrokenEdits
  rw [honce]
  constructor
  · rintro ⟨content, hcont, hframed, hedits⟩ content' hcont'
    cases hcont
    cases hcont'
    exact ⟨hmatches.framed_encode_iff.mp hframed, hrest.mp hedits⟩
  · intro hwhole
    obtain ⟨hwhole, hedits⟩ := hwhole t' rfl
    exact ⟨t', rfl, hmatches.framed_encode_iff.mpr hwhole, hrest.mpr hedits⟩

/-- The edits of a file. -/
theorem framedEdits_iff {path : String} {edits : List Edit} {bytes next : List UInt8}
    (h : MultiEditTool.content path edits bytes = .ok next) :
  FramedEdits path edits (decode bytes) bytes next ↔
    Valid bytes ∧ UnbrokenEdits path edits (decode bytes)
  := by
  unfold MultiEditTool.content at h
  cases hedited : MultiEditTool.edited path edits (decode bytes) with
  | error e =>
    rw [hedited] at h
    cases h
  | ok t =>
  rw [hedited] at h
  cases h
  by_cases hvalid : Valid bytes
  · have hiff := framedEdits_encode_iff hedited
    rw [show encode (decode bytes) = bytes from hvalid] at hiff
    rw [hiff]
    exact (and_iff_right hvalid).symm
  constructor
  · intro hframed
    exfalso
    apply hvalid
    cases edits with
    | nil =>
      cases hedited
      exact hframed
    | cons edit edits =>
      obtain ⟨content, honce, hfirst, -⟩ := hframed
      exact ((matches_editedOnce honce).framed_iff.mp hfirst).1
  · rintro ⟨hcontra, -⟩
    cases hvalid hcontra

theorem exists_of_mem_mapM_ok {α β ε : Type} {f : α → Except ε β} {l : List α} {r : List β}
    (h : l.mapM f = .ok r) {y : β} (hy : y ∈ r) :
  ∃ x ∈ l, f x = .ok y
  := by
  induction l generalizing r with
  | nil =>
    cases h
    cases hy
  | cons x l ih =>
  rw [List.mapM_cons] at h
  cases hx : f x with
  | error e =>
    rw [hx] at h
    cases h
  | ok z =>
  cases hl : l.mapM f with
  | error e =>
    rw [hx, hl] at h
    cases h
  | ok rest =>
  rw [hx, hl] at h
  cases h
  rcases List.mem_cons.mp hy with rfl | hy
  · exact ⟨x, List.mem_cons_self, hx⟩
  · obtain ⟨w, hw, hfw⟩ := ih hl hy
    exact ⟨w, List.mem_cons_of_mem x hw, hfw⟩

/-- What is written to a file comes from its edits. -/
theorem exists_of_mem_updates {safeMutationPath : String → Option String}
    {relative : String → String} {files : String → Option (List UInt8)}
    {edits : List (String × Edit)} {updates : List (String × List UInt8)}
    (h : MultiEditTool.updates safeMutationPath relative files edits = .ok updates)
    {update : String × List UInt8} (hmem : update ∈ updates) :
  ∃ groups group bytes, MultiEditTool.grouped safeMutationPath edits = some groups ∧
    (update.1, group) ∈ groups ∧ files update.1 = some bytes ∧
    MultiEditTool.content (relative update.1) group bytes = .ok update.2
  := by
  unfold MultiEditTool.updates at h
  split at h
  · cases h
  next groups hgroups =>
    obtain ⟨group, hgroup, hupdate⟩ := exists_of_mem_mapM_ok h hmem
    split at hupdate
    · cases hupdate
    next bytes hbytes =>
      split at hupdate
      · cases hupdate
      next next hcont =>
        cases hupdate
        exact ⟨groups, group.2, bytes, hgroups, hgroup, hbytes, hcont⟩

/-- **What is around the places that are edited keeps its bytes where no character is broken.** -/
theorem frame_iff {p : String} {i : EditInput} {bytes next : List UInt8}
    {safeMutationPath : String → Option String} {relative : String → String}
    {files : String → Option (List UInt8)} {edits : List (String × Edit)}
    {updates : List (String × List UInt8)} (hedit : EditTool.content p i bytes = .ok next)
    (hupd : MultiEditTool.updates safeMutationPath relative files edits = .ok updates) :
  (Framed (EditTool.matched i (decode bytes)) i.oldString bytes next ↔
      Valid bytes ∧ Unbroken (EditTool.matched i (decode bytes)) i.oldString) ∧
    ∀ update ∈ updates, ∃ groups group old,
      MultiEditTool.grouped safeMutationPath edits = some groups ∧ (update.1, group) ∈ groups ∧
        files update.1 = some old ∧
        (FramedEdits (relative update.1) group (decode old) old update.2 ↔
          Valid old ∧ UnbrokenEdits (relative update.1) group (decode old))
  := by
  constructor
  · unfold EditTool.content at hedit
    cases hedited : EditTool.edited p i (decode bytes) with
    | error e =>
      rw [hedited] at hedit
      cases hedit
    | ok t =>
      rw [hedited] at hedit
      cases hedit
      apply (matches_edit hedited).framed_iff
  intro update hmem
  obtain ⟨groups, group, old, hgroups, hgroup, hold, hcont⟩ := exists_of_mem_updates hupd hmem
  exact ⟨groups, group, old, hgroups, hgroup, hold, framedEdits_iff hcont⟩

/-- The edit that replaces `a` by `c`. -/
def exampleEdit : EditInput where
  path := "f"
  oldString := [0x61]
  newString := [0x63]
  replaceAll := false

theorem frame_iff_example :
  (Framed (EditTool.matched exampleEdit (decode [0x61, 0x62])) exampleEdit.oldString [0x61, 0x62]
        [0x63, 0x62] ↔
      Valid [0x61, 0x62] ∧
        Unbroken (EditTool.matched exampleEdit (decode [0x61, 0x62])) exampleEdit.oldString) ∧
    ∀ update ∈ [("f", [0x63, 0x62])], ∃ groups group old,
      MultiEditTool.grouped some [("f", ⟨[0x61], [0x63]⟩)] = some groups ∧
        (update.1, group) ∈ groups ∧ (fun _ : String => some [0x61, 0x62]) update.1 = some old ∧
        (FramedEdits (id update.1) group (decode old) old update.2 ↔
          Valid old ∧ UnbrokenEdits (id update.1) group (decode old))
  := by
  have hedit : EditTool.content "/f" exampleEdit [0x61, 0x62] = .ok [0x63, 0x62] := by
    decide +kernel
  have hupd : MultiEditTool.updates some id (fun _ => some [0x61, 0x62])
      [("f", ⟨[0x61], [0x63]⟩)] = .ok [("f", [0x63, 0x62])] := by
    rfl
  apply frame_iff hedit hupd

/-- A byte that is not decoded is written as the replacement character. -/
theorem not_framed :
  EditTool.content "/f" exampleEdit [0xff, 0x61] = .ok [0xef, 0xbf, 0xbd, 0x63] ∧
    ¬ Framed (EditTool.matched exampleEdit (decode [0xff, 0x61])) exampleEdit.oldString
      [0xff, 0x61] [0xef, 0xbf, 0xbd, 0x63]
  := by
  constructor
  · decide +kernel
  intro h
  have hbytes := h.1
  revert hbytes
  decide +kernel

end Tools
