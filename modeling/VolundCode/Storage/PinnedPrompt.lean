import VolundCode.Lib.CodeUnits
import VolundCode.Lib.Ecma
import VolundCode.Lib.Sorting

/-!
# The prompt of pinned memories

`MemoryPromptProvider` renders the pinned memories into the prompt: those of the session before those
of the project and of the workspace, the newest first, each content once. It stops at the first
block that exceeds the limits, of which it renders as much as fits.

Whatever the memories contain, the prompt keeps its limits and consists of the blocks of the
memories that come first, of which only the last may be cut, and every block has one opening and
one closing tag (`renders`).
-/

namespace Storage.MemoryPromptProvider

open CodeUnits List

/-- A text of the source. -/
def text (s : String) : Text :=
  units s.toList

/-- The line break between lines and between blocks. -/
def newline : Text :=
  text "\n"

inductive ScopeKind where
  | session
  | project
  | workspace
  deriving DecidableEq, Repr

def ScopeKind.name : ScopeKind → String
  | session => "session"
  | project => "project"
  | workspace => "workspace"

def scopePriority : ScopeKind → ℕ
  | .session => 3
  | .project => 2
  | .workspace => 1

/-- What is rendered of a memory and what it is ranked by. -/
structure MemoryRecord where
  id : Text
  scope : ScopeKind
  content : Text
  updatedAt : Text
  deletedAt : Option Text
  deriving DecidableEq, Repr

/-- The record has not been deleted. -/
def MemoryRecord.isLive (record : MemoryRecord) : Bool :=
  record.deletedAt.getD [] = []

/-- How texts are compared and written in lower case. -/
structure Externals where
  localeCompare : Text → Text → Ordering
  toLocaleLowerCase : Text → Text

/-- The limits of the prompt. -/
structure MemoryPromptProviderOptions where
  maxLines : ℚ := 400
  maxTokens : ℚ := 2000

/-! ### Blocks -/

def escapeUnit (unit : UInt16) : Text :=
  if unit = 0x26 then text "&amp;"
  else if unit = 0x3c then text "&lt;"
  else if unit = 0x3e then text "&gt;"
  else [unit]

/-- `escapeXml`. -/
def escapeXml (value : Text) : Text :=
  value.flatMap escapeUnit

/-- What stands between the opening bracket of a block and that of its end tag. -/
def inside (record : MemoryRecord) (content : Text) : Text :=
  text "untrusted source=\"memory:pinned\" id=\"" ++ (escapeXml record.id ++ (text "\" scope=\"" ++
    (text record.scope.name ++ (text "\">\n" ++ (escapeXml content ++ newline)))))

/-- `renderBlock`. -/
def renderBlock (record : MemoryRecord) (content : Text) : Text :=
  0x3c :: (inside record content ++ text "</untrusted>")

/-- `lineCount`. -/
def lineCount (value : Text) : ℕ :=
  if value = [] then 0 else (split newline value).length

/-- The estimate of the tokens of a text: a third of its bytes. -/
def estimateTokens (value : Text) : ℕ :=
  ((encode value).length + 2) / 3

/-- `#withinBudget`. -/
def withinBudget (options : MemoryPromptProviderOptions) (blocks : List Text) : Bool :=
  lineCount (join newline blocks) ≤ options.maxLines &&
    estimateTokens (join newline blocks) ≤ options.maxTokens

/-- The content of a block that has been cut. -/
def truncated (contentLines : List Text) : Text :=
  join newline contentLines ++ text "\n[truncated]"

/-- The loop of `fitBlock`: the last line is halved, and dropped when it has one unit left. -/
def fitLines (record : MemoryRecord) (fits : Text → Bool) (contentLines : List Text) :
    Option Text :=
  if hne : contentLines = [] then none
  else if fits (renderBlock record (truncated contentLines)) then
    some (renderBlock record (truncated contentLines))
  else if 1 < (contentLines.getLast hne).length then
    fitLines record fits (contentLines.dropLast ++
      [(contentLines.getLast hne).take ((contentLines.getLast hne).length / 2)])
  else fitLines record fits contentLines.dropLast
termination_by (contentLines.map fun line => line.length + 1).sum
decreasing_by
  all_goals
    have hsum := congrArg (fun lines => (lines.map fun line => line.length + 1).sum)
      (dropLast_concat_getLast hne)
    simp only [map_append, sum_append, map_cons, map_nil, sum_singleton, length_take] at hsum ⊢
    omega

/-- `fitBlock`. -/
def fitBlock (record : MemoryRecord) (maxContentLines : ℚ) (fits : Text → Bool) : Option Text :=
  fitLines record fits ((split newline record.content).take ⌊maxContentLines⌋₊)

/-! ### The prompt -/

section Rendering

variable (env : Externals)

def comparePinned (left right : MemoryRecord) : Ordering :=
  (compare (scopePriority right.scope) (scopePriority left.scope)).then <|
    (env.localeCompare right.updatedAt left.updatedAt).then (env.localeCompare left.id right.id)

def isSpace (unit : UInt16) : Bool :=
  Ecma.isSpace (single unit)

/-- `value.replace(/\s+/g, ' ')`. -/
def collapse : Text → Text
  | [] => []
  | unit :: rest =>
    if !isSpace unit then unit :: collapse rest
    else if rest.head?.any isSpace then collapse rest
    else 0x20 :: collapse rest

/-- `normalizeForDedupe`. -/
def normalizeForDedupe (value : Text) : Text :=
  env.toLocaleLowerCase (collapse ((value.dropWhile isSpace).rdropWhile isSpace))

variable (options : MemoryPromptProviderOptions)

/-- The loop of `render`, with the blocks and the normalised contents so far. -/
def fill (blocks seen : List Text) : List MemoryRecord → List Text
  | [] => blocks
  | record :: rest =>
    let dedupeKey := normalizeForDedupe env record.content
    if dedupeKey = [] ∨ dedupeKey ∈ seen then fill blocks seen rest
    else if withinBudget options (blocks ++ [renderBlock record record.content]) then
      fill (blocks ++ [renderBlock record record.content]) (dedupeKey :: seen) rest
    else
      blocks ++ (fitBlock record (max 0 (options.maxLines - lineCount (join newline blocks) - 3))
        fun candidate => withinBudget options (blocks ++ [candidate])).toList

/-- The pinned memories that have not been deleted, the first to be rendered first. -/
def candidates (pages : List (List MemoryRecord)) : List MemoryRecord :=
  (pages.flatten.filter (·.isLive)).mergeSort fun left right => (comparePinned env left right).isLE

/-- The blocks of the prompt. -/
def blocksOf (pages : List (List MemoryRecord)) : List Text :=
  fill env options [] [] (candidates env pages)

/-- `render`. -/
def render (pages : List (List MemoryRecord)) : Text :=
  join newline (blocksOf env options pages)

/-! ### What is claimed -/

/-- The first of two memories is not to come after the second one: those of the session come before
those of the project, and these before those of the workspace; of one scope the newest come first. -/
def Precedes (left right : MemoryRecord) : Prop :=
  scopePriority right.scope < scopePriority left.scope ∨
    left.scope = right.scope ∧ (env.localeCompare right.updatedAt left.updatedAt).isLE

/-- The memories whose normalised contents are not empty and come for the first time. -/
def distinct (seen : List Text) : List MemoryRecord → List MemoryRecord
  | [] => []
  | record :: rest =>
    let dedupeKey := normalizeForDedupe env record.content
    if dedupeKey = [] ∨ dedupeKey ∈ seen then distinct seen rest
    else record :: distinct (dedupeKey :: seen) rest

/-- The lines are the first lines of the content, of which the last may be cut. -/
def Cut (content : Text) (lines : List Text) : Prop :=
  ∃ whole line, whole ++ [line] <+: split newline content ∧
    ∃ start, start <+: line ∧ lines = whole ++ [start]

/-- The block has one opening and one closing tag. -/
def Tagged (block : Text) : Prop :=
  (Occurrences.positions (text "<untrusted") block).length = 1 ∧
    (Occurrences.positions (text "</untrusted>") block).length = 1

/-- The prompt keeps its limits. It consists of the blocks of the first memories, in their order and
without those of which the normalised content is empty or has come before, and of a block of the
next memory that has been cut, if there is one. Each block has one opening and one closing tag. -/
structure Renders (pages : List (List MemoryRecord)) : Prop where
  lines : lineCount (render env options pages) ≤ options.maxLines
  tokens : estimateTokens (render env options pages) ≤ options.maxTokens
  blocks : ∃ ranked : List MemoryRecord, ∃ n last,
    ranked.Perm (pages.flatten.filter (·.isLive)) ∧ ranked.Pairwise (Precedes env) ∧
    ((distinct env [] ranked).map (normalizeForDedupe env ·.content)).Nodup ∧
    blocksOf env options pages =
      ((distinct env [] ranked).take n).map (fun record => renderBlock record record.content) ++
        last ∧
    (last = [] ∨ ∃ record lines, (distinct env [] ranked)[n]? = some record ∧
      Cut record.content lines ∧ last = [renderBlock record (truncated lines)])
  tagged : ∀ block ∈ blocksOf env options pages, Tagged block

variable {env : Externals} {options : MemoryPromptProviderOptions}

/-! ### Limits -/

/-- A block that is cut fits. -/
theorem fits_of_fitLines {record : MemoryRecord} {fits : Text → Bool} {contentLines : List Text}
    {block : Text} (h : fitLines record fits contentLines = some block) :
  fits block
  := by
  induction contentLines using fitLines.induct record fits with
  | case1 =>
    rw [fitLines, dif_pos rfl] at h
    cases h
  | case2 lines hne hfits =>
    rw [fitLines, dif_neg hne, if_pos hfits] at h
    cases h
    exact hfits
  | case3 lines hne hfits hlong ih =>
    rw [fitLines, dif_neg hne, if_neg hfits, if_pos hlong] at h
    apply ih h
  | case4 lines hne hfits hlong ih =>
    rw [fitLines, dif_neg hne, if_neg hfits, if_neg hlong] at h
    apply ih h

/-- As long as blocks fit, more are added only if they fit. -/
theorem withinBudget_fill {blocks seen : List Text} {records : List MemoryRecord}
    (h : withinBudget options blocks) :
  withinBudget options (fill env options blocks seen records)
  := by
  induction records generalizing blocks seen with
  | nil => exact h
  | cons record rest ih =>
  rw [fill]
  split_ifs with hseen hfits
  · apply ih h
  · apply ih hfits
  cases hcut : fitBlock record
      (max 0 (options.maxLines - lineCount (join newline blocks) - 3))
      fun candidate => withinBudget options (blocks ++ [candidate]) with
  | none => simpa using h
  | some block => apply fits_of_fitLines hcut

/-- The prompt without memories fits. -/
theorem withinBudget_nil (hlines : 0 ≤ options.maxLines) (htokens : 0 ≤ options.maxTokens) :
  withinBudget options []
  := by
  simp [withinBudget, join, lineCount, estimateTokens, encode, characters, Utf8.encode, hlines,
    htokens]

/-! ### Which memories are rendered -/

/-- A block that is cut has the first lines of its content. -/
theorem cut_of_fitLines {record : MemoryRecord} {fits : Text → Bool} {content : Text}
    {contentLines : List Text} {block : Text} (h : fitLines record fits contentLines = some block)
    (hlines : contentLines ≠ [] → Cut content contentLines) :
  ∃ lines, Cut content lines ∧ block = renderBlock record (truncated lines)
  := by
  induction contentLines using fitLines.induct record fits with
  | case1 =>
    rw [fitLines, dif_pos rfl] at h
    cases h
  | case2 lines hne hfits =>
    rw [fitLines, dif_neg hne, if_pos hfits] at h
    exact ⟨lines, hlines hne, (Option.some.inj h).symm⟩
  | case3 lines hne hfits hlong ih =>
    rw [fitLines, dif_neg hne, if_neg hfits, if_pos hlong] at h
    apply ih h
    intro _
    obtain ⟨whole, line, hpre, start, hstart, rfl⟩ := hlines hne
    rw [dropLast_concat, getLast_concat]
    refine ⟨whole, line, hpre, _, ?_, rfl⟩
    apply IsPrefix.trans _ hstart
    apply take_prefix
  | case4 lines hne hfits hlong ih =>
  rw [fitLines, dif_neg hne, if_neg hfits, if_neg hlong] at h
  apply ih h
  obtain ⟨whole, line, hpre, start, hstart, rfl⟩ := hlines hne
  rw [dropLast_concat]
  intro hwhole
  rw [← dropLast_concat_getLast hwhole] at hpre ⊢
  exact ⟨_, _, (prefix_append _ _).trans hpre, _, prefix_rfl, rfl⟩

/-- A block that `fitBlock` has cut has the first lines of its content. -/
theorem cut_of_fitBlock {record : MemoryRecord} {maxContentLines : ℚ} {fits : Text → Bool}
    {block : Text} (h : fitBlock record maxContentLines fits = some block) :
  ∃ lines, Cut record.content lines ∧ block = renderBlock record (truncated lines)
  := by
  apply cut_of_fitLines h
  intro hne
  have hpre := take_prefix ⌊maxContentLines⌋₊ (split newline record.content)
  rw [← dropLast_concat_getLast hne] at hpre ⊢
  exact ⟨_, _, hpre, _, prefix_rfl, rfl⟩

variable (env options) in
/-- The blocks are those of the first memories and of one that has been cut. -/
theorem fill_eq (blocks seen : List Text) (records : List MemoryRecord) :
  ∃ n last, fill env options blocks seen records =
      blocks ++ (((distinct env seen records).take n).map
        (fun record => renderBlock record record.content) ++ last) ∧
    (last = [] ∨ ∃ record lines, (distinct env seen records)[n]? = some record ∧
      Cut record.content lines ∧ last = [renderBlock record (truncated lines)])
  := by
  induction records generalizing blocks seen with
  | nil => exact ⟨0, [], by simp [fill], .inl rfl⟩
  | cons record rest ih =>
  rw [fill, distinct]
  split_ifs with hseen hfits
  · apply ih
  · obtain ⟨n, last, heq, hlast⟩ := ih (blocks ++ [renderBlock record record.content])
      (normalizeForDedupe env record.content :: seen)
    use n + 1, last
    rw [heq]
    exact ⟨by simp, hlast⟩
  refine ⟨0, _, rfl, ?_⟩
  cases hcut : fitBlock record
      (max 0 (options.maxLines - lineCount (join newline blocks) - 3))
      fun candidate => withinBudget options (blocks ++ [candidate]) with
  | none => exact .inl rfl
  | some block =>
    obtain ⟨lines, hlines, rfl⟩ := cut_of_fitBlock hcut
    exact .inr ⟨record, lines, rfl, hlines, rfl⟩

/-- The memories have distinct contents, which have not come before. -/
theorem nodup_distinct (seen : List Text) (records : List MemoryRecord) :
  ((distinct env seen records).map (normalizeForDedupe env ·.content)).Nodup ∧
    ∀ record ∈ distinct env seen records, normalizeForDedupe env record.content ∉ seen
  := by
  induction records generalizing seen with
  | nil => exact ⟨nodup_nil, nofun⟩
  | cons record rest ih =>
  rw [distinct]
  split_ifs with hseen
  · apply ih
  obtain ⟨hnodup, hnew⟩ := ih (normalizeForDedupe env record.content :: seen)
  constructor
  · rw [map_cons, nodup_cons]
    refine ⟨?_, hnodup⟩
    intro hmem
    obtain ⟨other, hother, heq⟩ := mem_map.mp hmem
    apply hnew other hother
    rw [heq]
    apply mem_cons_self
  intro other hother
  rcases mem_cons.mp hother with rfl | hother
  · exact fun hmem => hseen (.inr hmem)
  · exact fun hmem => hnew other hother (mem_cons_of_mem _ hmem)

/-! ### The order -/

theorem comparePinned_eq :
  comparePinned env = compareLex (fun left right => compare (scopePriority right.scope)
    (scopePriority left.scope)) (compareLex
      (fun left right => env.localeCompare right.updatedAt left.updatedAt)
      fun left right => env.localeCompare left.id right.id)
  := rfl

/-- Memories can be sorted. -/
theorem comparison_comparePinned (hcomp : Std.TransCmp env.localeCompare) :
  Sorting.Comparison fun left right => (comparePinned env left right).isLE
  := by
  have hscopes : Std.TransCmp fun left right : MemoryRecord =>
      compare (scopePriority right.scope) (scopePriority left.scope) :=
    { eq_swap := Std.OrientedCmp.eq_swap
      isLE_trans := fun hab hbc => Std.TransCmp.isLE_trans hbc hab }
  have htimes : Std.TransCmp fun left right : MemoryRecord =>
      env.localeCompare right.updatedAt left.updatedAt :=
    { eq_swap := hcomp.eq_swap
      isLE_trans := fun hab hbc => hcomp.isLE_trans hbc hab }
  have hids : Std.TransCmp fun left right : MemoryRecord =>
      env.localeCompare left.id right.id :=
    { eq_swap := hcomp.eq_swap
      isLE_trans := fun hab hbc => hcomp.isLE_trans hab hbc }
  have htrans : Std.TransCmp (comparePinned env) := by
    rw [comparePinned_eq]
    infer_instance
  constructor
  · intro a b c hab hbc
    apply htrans.isLE_trans hab hbc
  intro a b
  rw [htrans.eq_swap]
  cases comparePinned env b a with
  | _ => rfl

/-- The order puts the memories that precede others first. -/
theorem precedes_of_isLE {left right : MemoryRecord} (h : (comparePinned env left right).isLE) :
  Precedes env left right
  := by
  rw [comparePinned] at h
  rcases hscopes : compare (scopePriority right.scope) (scopePriority left.scope) with _ | _ | _
  · exact .inl (Nat.compare_eq_lt.mp hscopes)
  · right
    constructor
    · have hsame := Nat.compare_eq_eq.mp hscopes
      cases hleft : left.scope with
      | session | project | workspace =>
        cases hright : right.scope with
        | session | project | workspace => simp [hleft, hright, scopePriority] at hsame ⊢
    rw [hscopes, Ordering.then] at h
    cases htimes : env.localeCompare right.updatedAt left.updatedAt with
    | lt | eq => rfl
    | gt =>
      rw [htimes] at h
      cases h
  · rw [hscopes] at h
    cases h

/-! ### Tags -/

/-- No bracket is left in a text that has been escaped. -/
theorem not_mem_escapeXml (value : Text) :
  0x3c ∉ escapeXml value
  := by
  intro h
  obtain ⟨unit, -, hunit⟩ := mem_flatMap.mp h
  rw [escapeUnit] at hunit
  split_ifs at hunit with hamp hlt hgt
  · revert hunit
    decide +kernel
  · revert hunit
    decide +kernel
  · revert hunit
    decide +kernel
  · exact hlt (mem_singleton.mp hunit).symm

/-- Nothing opens a tag between the brackets of a block. -/
theorem not_mem_inside (record : MemoryRecord) (content : Text) :
  0x3c ∉ inside record content
  := by
  have hname : 0x3c ∉ text record.scope.name := by
    cases record.scope with
    | _ => decide +kernel
  have htext : ∀ s ∈ ["untrusted source=\"memory:pinned\" id=\"", "\" scope=\"", "\">\n", "\n"],
      0x3c ∉ text s := by
    decide +kernel
  simp [inside, not_mem_escapeXml, hname, htext, newline]

/-- A block has one opening and one closing tag. -/
theorem tagged_renderBlock (record : MemoryRecord) (content : Text) :
  Tagged (renderBlock record content)
  := by
  obtain ⟨hopening, hclose⟩ := Occurrences.positions_enclosed (text "untrusted")
    (not_mem_inside record content) (show 0x3c ∉ text "/untrusted>" by decide +kernel)
  have hstart : text "untrusted" <+: inside record content :=
    (prefix_append (text "untrusted") (text " source=\"memory:pinned\" id=\"")).trans
      (prefix_append _ _)
  have hend : ¬ text "/untrusted>" <+: inside record content ++ 0x3c :: text "/untrusted>" := by
    intro h
    have hhead : (inside record content ++ 0x3c :: text "/untrusted>").head? = some 0x75 := rfl
    obtain ⟨rest, hrest⟩ := h
    rw [← hrest] at hhead
    cases hhead
  constructor
  · have hpositions : Occurrences.positions (text "<untrusted") (renderBlock record content) =
        [0] := hopening hstart (by decide +kernel)
    rw [hpositions]
    rfl
  have hpositions : Occurrences.positions (text "</untrusted>") (renderBlock record content) =
      [1 + (inside record content).length] := hclose hend
  rw [hpositions]
  rfl

/-- Every block of the prompt is tagged. -/
theorem tagged_fill {blocks seen : List Text} {records : List MemoryRecord}
    (h : ∀ block ∈ blocks, Tagged block) :
  ∀ block ∈ fill env options blocks seen records, Tagged block
  := by
  obtain ⟨n, last, heq, hlast⟩ := fill_eq env options blocks seen records
  rw [heq]
  intro block hblock
  rw [mem_append, mem_append, mem_map] at hblock
  rcases hblock with hblock | ⟨record, -, rfl⟩ | hblock
  · apply h block hblock
  · apply tagged_renderBlock
  rcases hlast with rfl | ⟨record, lines, -, -, rfl⟩
  · cases hblock
  · rw [mem_singleton.mp hblock]
    apply tagged_renderBlock

end Rendering

/-- A memory for examples. -/
def pinned : MemoryRecord where
  id := text "m"
  scope := .session
  content := text "a < b"
  updatedAt := text "2024"
  deletedAt := none

/-- Texts are compared unit by unit. -/
def unitwise : Externals where
  localeCompare left right := compareOn (·.map UInt16.toNat) left right
  toLocaleLowerCase value := value

end Storage.MemoryPromptProvider
