import VolundCode.Lib.Base64
import VolundCode.Lib.Paging
import VolundCode.Lib.Utf8
import VolundCode.Storage.MemoryIndex
import VolundCode.Storage.MemoryService

/-!
# Listing memory records

The service lists the records that a scope may see in pages, pinned ones first, then the ones that
were updated last. The cursor of a page is the position of its last record, as text. An export
follows the cursors of several scopes and takes every record once.

Following the cursors lists every record exactly once and in order, for every filter and all sizes
of pages, and an export takes every record once, exactly when no two records that a scope may see
are tied in this order (`paged_iff`). The order compares ids by `localeCompare`, which does not
tell all ids apart.
-/

namespace Storage

open Sorting List

/-- What listing uses of its environment: how texts are compared, and the policy. -/
structure ListingExternals where
  localeCompare : String → String → Ordering
  canAccess : MemoryRecordScope → MemoryRecordScope → Bool

/-! ### Positions and cursors -/

/-- What records are listed by. -/
structure MemoryPosition where
  pinned : Bool
  updatedAt : String
  id : String
deriving DecidableEq

def positionOf (record : MemoryRecord) : MemoryPosition where
  pinned := record.pinned
  updatedAt := record.updatedAt
  id := record.id

/-- The text of a position. -/
def cursorOf (position : MemoryPosition) : String :=
  String.ofList (Base64.encode (Utf8.encode (Json.arr
    [.bool position.pinned, .str position.updatedAt, .str position.id]).stringify))

def memoryCursorFor (record : MemoryRecord) : String :=
  cursorOf (positionOf record)

def decodeCursor (cursor : String) : Except MemoryError MemoryPosition :=
  match Json.parse (Utf8.decodeLossy (Base64.decode cursor.toList)) with
  | some (.arr [.bool pinned, .str updatedAt, .str id]) => .ok ⟨pinned, updatedAt, id⟩
  | _ => .error (memoryValidation "Memory cursor is invalid")

variable (env : ListingExternals)

def compareMemoryRecords (left right : MemoryPosition) : Ordering :=
  if left.pinned ≠ right.pinned then if left.pinned then .lt else .gt
  else
    (env.localeCompare right.updatedAt left.updatedAt).then (env.localeCompare left.id right.id)

/-- Whether a position is not after another one. -/
def notAfter (left right : MemoryPosition) : Bool :=
  (compareMemoryRecords env left right).isLE

/-! ### Pages -/

/-- What is asked for; limits that are not integers are left out. -/
structure MemoryListOptions where
  limit : Option ℤ := none
  cursor : Option String := none
  pinned : Option Bool := none
  tags : Option (List String) := none
  sources : Option (List ProvenanceSource) := none
  includeDeleted : Bool := false

structure MemoryPage where
  items : List MemoryRecord
  nextCursor : Option String

/-- Whether a record is asked for. -/
def asked (scope : MemoryRecordScope) (options : MemoryListOptions) (tags : List String)
    (record : MemoryRecord) : Bool :=
  env.canAccess scope record.scope && (options.includeDeleted || !record.isDeleted) &&
    options.pinned.all (fun pinned => record.pinned = pinned) &&
    ((options.sources.getD []).isEmpty ||
      (options.sources.getD []).contains record.provenance.source) &&
    tags.all fun tag => record.tags.contains tag

/-- The records that are asked for, in order. -/
def listed (facts : MemoryRecords) (scope : MemoryRecordScope) (options : MemoryListOptions)
    (tags : List String) : List MemoryRecord :=
  (facts.records.filter (asked env scope options tags)).mergeSort fun left right =>
    notAfter env (positionOf left) (positionOf right)

/-- The position of a cursor; an empty one is none. -/
def startOf (cursor : Option String) : Except MemoryError (Option MemoryPosition) :=
  match cursor with
  | none => .ok none
  | some text => if text = "" then .ok none else (decodeCursor text).map some

def listPage (facts : MemoryRecords) (scope : MemoryRecordScope) (options : MemoryListOptions) :
    Except MemoryError MemoryPage := do
  validateScope scope
  let limit := options.limit.getD 100
  if limit < 1 ∨ 500 < limit then
    throw (memoryValidation "Memory page limit must be between 1 and 500")
  let after ← startOf options.cursor
  let tags ← normalizeTags (options.tags.getD [])
  let records := (listed env facts scope options tags).filter fun record =>
    after.all fun position => !notAfter env (positionOf record) position
  let items := records.take limit.toNat
  pure
    { items := items
      nextCursor :=
        if limit < records.length then items.getLast?.map memoryCursorFor else none }

/-- The records of at most `n` pages of the given limits, and the cursor after them. -/
def follow (facts : MemoryRecords) (scope : MemoryRecordScope) (options : MemoryListOptions) :
    ℕ → (ℕ → Option ℤ) → Option String → Except MemoryError (List MemoryRecord × Option String)
  | 0, _, cursor => .ok ([], cursor)
  | n + 1, limits, cursor => do
    let page ← listPage env facts scope { options with limit := limits 0, cursor := cursor }
    match page.nextCursor with
    | none => pure (page.items, none)
    | some next =>
      let more ← follow facts scope options n (fun i => limits (i + 1)) (some next)
      pure (page.items ++ more.1, more.2)

/-! ### The export -/

/-- A record whose id has not been seen is added. -/
def addUnseen (records : List MemoryRecord) (record : MemoryRecord) : List MemoryRecord :=
  if records.any fun r => r.id = record.id then records else records ++ [record]

/-- The records of a scope are added, in at most `n` pages. -/
def exportScope (facts : MemoryRecords) (scope : MemoryRecordScope) :
    ℕ → Option String → List MemoryRecord → Except MemoryError (Option (List MemoryRecord))
  | 0, _, _ => .ok none
  | n + 1, cursor, records => do
    let page ← listPage env facts scope { limit := some 500, cursor := cursor }
    let records := page.items.foldl addUnseen records
    match page.nextCursor with
    | none => pure (some records)
    | some next =>
      if next = "" then pure (some records) else exportScope facts scope n (some next) records

/-- The records of an export, each scope in at most `n` pages. -/
def exportRecords (facts : MemoryRecords) (n : ℕ) :
    List MemoryRecordScope → List MemoryRecord → Except MemoryError (Option (List MemoryRecord))
  | [], records => .ok (some records)
  | scope :: scopes, records => do
    match ← exportScope env facts scope n none records with
    | none => pure none
    | some records => exportRecords facts n scopes records

/-! ### What listing should do -/

/-- Following the cursors lists every record that is asked for exactly once and in order, whatever
the limits of the pages are. -/
def ListsAll (facts : MemoryRecords) : Prop :=
  ∀ scope options tags, validateScope scope = .ok () →
    normalizeTags (options.tags.getD []) = .ok tags →
      ∀ limits : ℕ → Option ℤ, (∀ i, ∀ limit ∈ limits i, 1 ≤ limit ∧ limit ≤ 500) →
        ∃ n items, follow env facts scope options (n + 1) limits none = .ok (items, none) ∧
          items.Perm (facts.records.filter (asked env scope options tags)) ∧
          items.Pairwise fun left right =>
            compareMemoryRecords env (positionOf left) (positionOf right) ≠ .gt

/-- An export takes every record once that is not deleted and that one of the scopes may see. -/
def ExportsAll (facts : MemoryRecords) : Prop :=
  ∀ scopes, (∀ scope ∈ scopes, validateScope scope = .ok ()) →
    ∃ n records, exportRecords env facts n scopes [] = .ok (some records) ∧
      (records.map MemoryRecord.id).Nodup ∧
      ∀ record, record ∈ records ↔ record ∈ facts.records ∧ record.isDeleted = false ∧
        ∃ scope ∈ scopes, env.canAccess scope record.scope

/-- No two records that a scope may see are tied: they differ in whether they are pinned, in their
time or in their id, as `localeCompare` compares texts. -/
def Separated (facts : MemoryRecords) : Prop :=
  ∀ scope, validateScope scope = .ok () →
    (facts.records.filter fun record => env.canAccess scope record.scope).Pairwise fun left right =>
      compareMemoryRecords env (positionOf left) (positionOf right) ≠ .eq

/-! ### Cursors are read back -/

variable {env}

theorem decodeCursor_cursorOf (position : MemoryPosition) :
  decodeCursor (cursorOf position) = .ok position
  := by
  have hord : (Json.arr [.bool position.pinned, .str position.updatedAt,
      .str position.id]).Ordered := by
    apply Json.orderedElements_iff.mpr
    simp [Json.Ordered]
  rw [decodeCursor, cursorOf, String.toList_ofList, Base64.decode_encode, Utf8.decodeLossy_encode,
    Json.parse_stringify hord]

theorem cursorOf_ne (position : MemoryPosition) :
  cursorOf position ≠ ""
  := by
  intro h
  have hread := decodeCursor_cursorOf position
  rw [h] at hread
  cases hread

theorem startOf_cursor (start : Option MemoryPosition) :
  startOf (start.map cursorOf) = .ok start
  := by
  cases start with
  | none => rfl
  | some position =>
    rw [Option.map_some, startOf, if_neg (cursorOf_ne position), decodeCursor_cursorOf]
    rfl

/-! ### The order -/

variable {facts : MemoryRecords} {scope : MemoryRecordScope} {options : MemoryListOptions}
variable {tags : List String}

/-- Pinned first, then by the times, the last first, then by the ids. -/
theorem compareMemoryRecords_eq :
  compareMemoryRecords env = compareLex (compareOn fun position => !position.pinned)
    (compareLex (fun left right => env.localeCompare right.updatedAt left.updatedAt)
      fun left right => env.localeCompare left.id right.id)
  := by
  funext left right
  rw [compareMemoryRecords, compareLex, compareOn]
  cases left.pinned with
  | true | false =>
    cases right.pinned with
    | true | false => rfl

theorem transCmp_compareMemoryRecords (hcomp : Std.TransCmp env.localeCompare) :
  Std.TransCmp (compareMemoryRecords env)
  := by
  have htimes : Std.TransCmp fun left right : MemoryPosition =>
      env.localeCompare right.updatedAt left.updatedAt :=
    { eq_swap := hcomp.eq_swap
      isLE_trans := fun hab hbc => hcomp.isLE_trans hbc hab }
  have hids : Std.TransCmp fun left right : MemoryPosition =>
      env.localeCompare left.id right.id :=
    { eq_swap := hcomp.eq_swap
      isLE_trans := fun hab hbc => hcomp.isLE_trans hab hbc }
  rw [compareMemoryRecords_eq]
  infer_instance

theorem comparison_notAfter (hcomp : Std.TransCmp env.localeCompare) :
  Comparison (notAfter env)
  := by
  have htrans := transCmp_compareMemoryRecords hcomp
  constructor
  · intro a b c hab hbc
    apply htrans.isLE_trans hab hbc
  intro a b
  rw [notAfter, notAfter, htrans.eq_swap]
  cases compareMemoryRecords env b a with
  | _ => rfl

theorem tied_iff (hcomp : Std.TransCmp env.localeCompare) (left right : MemoryPosition) :
  Tied (notAfter env) left right ↔ compareMemoryRecords env left right = .eq
  := by
  have htrans := transCmp_compareMemoryRecords hcomp
  rw [Tied, notAfter, notAfter, htrans.eq_swap (a := right)]
  cases compareMemoryRecords env left right with
  | _ => decide

/-! ### Pages of the listed records -/

/-- The size of a page. -/
def pageSize (limit : Option ℤ) : ℕ :=
  (limit.getD 100).toNat

theorem normalizeTags_nil :
  normalizeTags [] = .ok []
  := by
  simp [normalizeTags, Ecma.toSorted]

/-- A limit the service accepts. -/
def Accepted (limit : Option ℤ) : Prop :=
  ∀ n ∈ limit, 1 ≤ n ∧ n ≤ 500

theorem bounds_of_accepted {limit : Option ℤ} (h : Accepted limit) :
  1 ≤ limit.getD 100 ∧ limit.getD 100 ≤ 500
  := by
  cases limit with
  | none => decide
  | some n => apply h n rfl

theorem listPage_eq (env : ListingExternals) (facts : MemoryRecords) (options : MemoryListOptions)
    (hscope : validateScope scope = .ok ())
    (htags : normalizeTags (options.tags.getD []) = .ok tags) {limit : Option ℤ}
    (hlimit : Accepted limit) (start : Option MemoryPosition) :
  let page := Paging.page positionOf (notAfter env) (listed env facts scope options tags)
    (pageSize limit) start
  listPage env facts scope { options with limit := limit, cursor := start.map cursorOf } =
    .ok ⟨page.1, page.2.map cursorOf⟩
  := by
  obtain ⟨hlow, hhigh⟩ := bounds_of_accepted hlimit
  have hbnd : ¬ (limit.getD 100 < 1 ∨ 500 < limit.getD 100) := by omega
  have hrest : ((listed env facts scope options tags).filter fun record =>
      start.all fun position => !notAfter env (positionOf record) position) =
        Paging.rest positionOf (notAfter env) (listed env facts scope options tags) start := by
    cases start with
    | none => simp [Paging.rest]
    | some position => rfl
  have hmore (records : List MemoryRecord) :
      (limit.getD 100 < (records.length : ℤ)) ↔ pageSize limit < records.length := by
    rw [pageSize]
    omega
  have hlisted : listed env facts scope
      { options with limit := limit, cursor := start.map cursorOf } tags =
        listed env facts scope options tags := rfl
  simp only [listPage, hscope, startOf_cursor, htags, if_neg hbnd, hmore, bind, Except.bind,
    pure, Except.pure, hlisted, hrest, Paging.page]
  split_ifs with hlong
  · rw [Option.map_map]
    rfl
  · rfl

theorem follow_paging (env : ListingExternals) (facts : MemoryRecords)
    (options : MemoryListOptions) (hscope : validateScope scope = .ok ())
    (htags : normalizeTags (options.tags.getD []) = .ok tags) {limits : ℕ → Option ℤ}
    (hlim : ∀ i, Accepted (limits i)) (n : ℕ) (start : Option MemoryPosition) :
  let pages := Paging.follow positionOf (notAfter env) (listed env facts scope options tags) n
    (fun i => pageSize (limits i)) start
  follow env facts scope options n limits (start.map cursorOf) = .ok (pages.1, pages.2.map cursorOf)
  := by
  induction n generalizing limits start with
  | zero => rfl
  | succ n ih =>
  have hpage := listPage_eq env facts options hscope htags (hlim 0) start
  have hmore := ih fun i => hlim (i + 1)
  dsimp only at hpage hmore ⊢
  rw [follow, hpage, Paging.follow]
  cases hnext : (Paging.page positionOf (notAfter env) (listed env facts scope options tags)
      (pageSize (limits 0)) start).2 with
  | none => rfl
  | some next =>
  have hrest := hmore (some next)
  rw [Option.map_some] at hrest
  simp only [bind, Except.bind, Option.map_some, hrest]
  rfl

/-! ### Complete listings -/

/-- The records that are asked for are in order in a listing. -/
theorem listed_inOrder (hcomp : Std.TransCmp env.localeCompare) :
  Paging.InOrder positionOf (notAfter env) (listed env facts scope options tags)
  := ((comparison_notAfter hcomp).comap positionOf).pairwise _

/-- No two records of a listing are tied where no two are that the scope may see. -/
theorem listed_apart (hcomp : Std.TransCmp env.localeCompare)
    (hscope : validateScope scope = .ok ()) (h : Separated env facts) :
  Paging.Apart positionOf (notAfter env) (listed env facts scope options tags)
  := by
  have hseen : Paging.Apart positionOf (notAfter env)
      (facts.records.filter fun record => env.canAccess scope record.scope) := by
    apply (h scope hscope).imp
    intro left right hne htied
    apply hne ((tied_iff hcomp _ _).mp htied)
  have hasked : (facts.records.filter (asked env scope options tags)).Sublist
      (facts.records.filter fun record => env.canAccess scope record.scope) := by
    apply monotone_filter_right
    intro record hrec
    simp only [asked, Bool.and_eq_true] at hrec
    apply hrec.1.1.1.1
  have hsub : Paging.Apart positionOf (notAfter env)
      (facts.records.filter (asked env scope options tags)) := List.Pairwise.sublist hasked hseen
  exact Untied.perm hsub (mergeSort_perm _ _).symm

/-- Where no two records are tied that a scope may see, the pages hold what is listed. -/
theorem follow_listed (hcomp : Std.TransCmp env.localeCompare)
    (hscope : validateScope scope = .ok ())
    (htags : normalizeTags (options.tags.getD []) = .ok tags) (h : Separated env facts)
    {limits : ℕ → Option ℤ} (hlim : ∀ i, Accepted (limits i)) {n : ℕ}
    (hn : (listed env facts scope options tags).length < n) :
  follow env facts scope options n limits none = .ok (listed env facts scope options tags, none)
  := by
  have hsizes (i : ℕ) : 1 ≤ pageSize (limits i) := by
    have hbnd := bounds_of_accepted (hlim i)
    rw [pageSize]
    omega
  have hpages := follow_paging env facts options hscope htags hlim n none
  rw [Paging.follow_eq (comparison_notAfter hcomp) (listed_inOrder hcomp)
    (listed_apart hcomp hscope h) hsizes hn] at hpages
  apply hpages

theorem listsAll_of_separated (hcomp : Std.TransCmp env.localeCompare) (h : Separated env facts) :
  ListsAll env facts
  := by
  intro scope options tags hscope htags limits hlim
  use (listed env facts scope options tags).length, listed env facts scope options tags
  use follow_listed hcomp hscope htags h hlim (Nat.lt_succ_self _)
  use mergeSort_perm _ _
  apply (listed_inOrder hcomp).imp
  intro left right hle hgt
  rw [notAfter, hgt] at hle
  cases hle

/-- A listing that is complete page by page has no two records that are tied. -/
theorem separated_of_listsAll (hcomp : Std.TransCmp env.localeCompare) (h : ListsAll env facts) :
  Separated env facts
  := by
  intro scope hscope
  have hlim (i : ℕ) : Accepted ((fun _ => some 1 : ℕ → Option ℤ) i) := by
    rintro n ⟨⟩
    decide
  obtain ⟨n, items, hfollow, hperm, -⟩ :=
    h scope { includeDeleted := true } [] hscope normalizeTags_nil _ hlim
  have hpages := follow_paging env facts { includeDeleted := true } hscope normalizeTags_nil hlim
    (n + 1) none
  dsimp only at hpages
  rw [Option.map_none, hfollow] at hpages
  have hitems := congrArg Prod.fst (Except.ok.inj hpages)
  have hapart : Paging.Apart positionOf (notAfter env) items := by
    dsimp only at hitems
    rw [hitems]
    apply Paging.untied_of_follow (comparison_notAfter hcomp)
    intro i
    rfl
  have hasked : (facts.records.filter (asked env scope { includeDeleted := true } [])) =
      facts.records.filter fun record => env.canAccess scope record.scope := by
    apply filter_congr
    intro record _
    simp [asked]
  rw [hasked] at hperm
  apply (Untied.perm hapart hperm).imp
  intro left right hne heq
  apply hne ((tied_iff hcomp _ _).mpr heq)

/-! ### Complete exports -/

/-- Records are added unless their ids are there. -/
theorem mem_foldl_addUnseen {items records : List MemoryRecord}
    (hitems : ∀ record ∈ items, record ∈ facts.records)
    (hrecs : ∀ record ∈ records, record ∈ facts.records) (record : MemoryRecord) :
  record ∈ items.foldl addUnseen records ↔ record ∈ records ∨ record ∈ items
  := by
  induction items generalizing records with
  | nil => simp
  | cons item items ih =>
  have hitem := hitems item mem_cons_self
  have hrest (r : MemoryRecord) (hr : r ∈ items) : r ∈ facts.records :=
    hitems r (mem_cons_of_mem _ hr)
  rw [foldl_cons, addUnseen]
  split_ifs with hseen
  · obtain ⟨r, hr, hid⟩ := any_eq_true.mp hseen
    have hsame : r = item := by
      apply inj_on_of_nodup_map facts.nodup (hrecs r hr) hitem
      simpa using hid
    rw [ih hrest hrecs, mem_cons]
    constructor
    · tauto
    rintro (hold | rfl | hnew)
    · exact Or.inl hold
    · exact Or.inl (hsame ▸ hr)
    · exact Or.inr hnew
  have hadded (r : MemoryRecord) (hr : r ∈ records ++ [item]) : r ∈ facts.records := by
    rcases mem_append.mp hr with hr | hr
    · apply hrecs r hr
    · rw [mem_singleton.mp hr]
      apply hitem
  rw [ih hrest hadded, mem_append, mem_singleton, mem_cons, or_assoc]

theorem nodup_foldl_addUnseen {items records : List MemoryRecord}
    (h : (records.map MemoryRecord.id).Nodup) :
  ((items.foldl addUnseen records).map MemoryRecord.id).Nodup
  := by
  induction items generalizing records with
  | nil => apply h
  | cons item items ih =>
  apply ih
  rw [addUnseen]
  split_ifs with hseen
  · apply h
  rw [map_append, map_singleton]
  have hnew : item.id ∉ records.map MemoryRecord.id := by
    intro hmem
    obtain ⟨r, hr, hid⟩ := mem_map.mp hmem
    apply hseen
    apply any_eq_true.mpr
    use r, hr
    simpa using hid
  rw [← concat_eq_append]
  apply Nodup.concat hnew h

/-- The pages of a scope, when they come to an end, are added to an export. -/
theorem exportScope_eq (hscope : validateScope scope = .ok ()) {n : ℕ} (hn : 0 < n)
    {start : Option MemoryPosition} {items : List MemoryRecord} (records : List MemoryRecord)
    (hpages : Paging.follow positionOf (notAfter env) (listed env facts scope {} []) n
      (fun _ => 500) start = (items, none)) :
  exportScope env facts scope n (start.map cursorOf) records =
    .ok (some (items.foldl addUnseen records))
  := by
  induction n generalizing start items records with
  | zero => cases hn
  | succ n ih =>
  have hlimit : Accepted (some 500) := by
    rintro n ⟨⟩
    decide
  have hpage := listPage_eq env facts {} hscope normalizeTags_nil hlimit start
  have hsize : pageSize (some 500) = 500 := rfl
  rw [hsize] at hpage
  dsimp only at hpage
  rw [Paging.follow] at hpages
  rw [exportScope, hpage]
  generalize Paging.page positionOf (notAfter env) (listed env facts scope {} []) 500 start =
    page at hpages
  obtain ⟨first, next⟩ := page
  cases next with
  | none =>
    obtain ⟨rfl, -⟩ := Prod.mk.inj hpages
    rfl
  | some next =>
  obtain ⟨rfl, hend⟩ := Prod.mk.inj hpages
  have hpos : 0 < n := by
    apply Nat.pos_of_ne_zero
    rintro rfl
    cases hend
  have hmore := ih hpos (first.foldl addUnseen records) (Prod.ext rfl hend)
  rw [Option.map_some] at hmore
  simp only [bind, Except.bind, Option.map_some, if_neg (cursorOf_ne next), hmore]
  rw [foldl_append]

/-- Where no two records are tied that a scope may see, an export holds what is listed of its
scopes. -/
theorem exportRecords_eq (hcomp : Std.TransCmp env.localeCompare) (h : Separated env facts)
    {scopes : List MemoryRecordScope} (hscopes : ∀ scope ∈ scopes, validateScope scope = .ok ())
    (records : List MemoryRecord) :
  exportRecords env facts (facts.records.length + 1) scopes records =
    .ok (some ((scopes.flatMap fun scope => listed env facts scope {} []).foldl addUnseen records))
  := by
  induction scopes generalizing records with
  | nil => rfl
  | cons scope scopes ih =>
  have hscope := hscopes scope mem_cons_self
  have hlen : (listed env facts scope {} []).length < facts.records.length + 1 := by
    rw [listed, length_mergeSort]
    have hle := length_filter_le (asked env scope {} []) facts.records
    omega
  have hpages : Paging.follow positionOf (notAfter env) (listed env facts scope {} [])
      (facts.records.length + 1) (fun _ => 500) none = (listed env facts scope {} [], none) :=
    Paging.follow_eq (comparison_notAfter hcomp) (listed_inOrder hcomp)
      (listed_apart hcomp hscope h) (by simp) hlen
  have hfirst := exportScope_eq hscope (Nat.succ_pos _) records hpages
  have hrest := ih (fun scope hmem => hscopes scope (mem_cons_of_mem _ hmem))
    ((listed env facts scope {} []).foldl addUnseen records)
  rw [Option.map_none] at hfirst
  rw [exportRecords, hfirst, flatMap_cons, foldl_append, ← hrest]
  rfl

theorem exportsAll_of_separated (hcomp : Std.TransCmp env.localeCompare) (h : Separated env facts) :
  ExportsAll env facts
  := by
  intro scopes hscopes
  refine ⟨_, _, exportRecords_eq hcomp h hscopes [], ?_, ?_⟩
  · exact nodup_foldl_addUnseen nodup_nil
  have hlisted (record : MemoryRecord) :
      record ∈ (scopes.flatMap fun scope => listed env facts scope {} []) ↔
        record ∈ facts.records ∧ record.isDeleted = false ∧
          ∃ scope ∈ scopes, env.canAccess scope record.scope := by
    simp only [mem_flatMap, listed, mem_mergeSort, mem_filter, asked]
    simp
    tauto
  intro record
  rw [mem_foldl_addUnseen (fun r hr => ((hlisted r).mp hr).1) (by simp), hlisted]
  simp

/-- Following the cursors lists every record that is asked for exactly once and in order, for every
filter and all limits, and an export takes every record of its scopes once, exactly when no two
records are tied that a scope may see. -/
theorem paged_iff (facts : MemoryRecords) (hcomp : Std.TransCmp env.localeCompare) :
  (ListsAll env facts ∧ ExportsAll env facts) ↔ Separated env facts
  := by
  constructor
  · intro h
    apply separated_of_listsAll hcomp h.1
  · intro h
    exact ⟨listsAll_of_separated hcomp h, exportsAll_of_separated hcomp h⟩

/-- The code points of a text whose letters `é` are taken apart. -/
def decomposed (s : String) : List ℕ :=
  s.toList.flatMap fun c => if c = '\u00e9' then [0x65, 0x301] else [c.toNat]

/-- For examples, texts are compared by their code points, and texts that are canonically equivalent
are equal. -/
def canonicalListing : ListingExternals where
  localeCompare a b := List.compareLex compare (decomposed a) (decomposed b)
  canAccess := hierarchicalAccess

theorem transCmp_canonical :
  Std.TransCmp canonicalListing.localeCompare
  := by
  have htrans : Std.TransCmp (List.compareLex (compare : ℕ → ℕ → Ordering)) := inferInstance
  exact
    { eq_swap := htrans.eq_swap
      isLE_trans := htrans.isLE_trans }

theorem paged_iff_pair :
  ListsAll canonicalListing ⟨[sampleRecord "a" "first", sampleRecord "b" "second"], by decide⟩ ∧
    ExportsAll canonicalListing ⟨[sampleRecord "a" "first", sampleRecord "b" "second"], by decide⟩
  := by
  apply (paged_iff _ transCmp_canonical).mpr
  intro scope _
  apply List.Pairwise.filter
  apply pairwise_pair.mpr
  decide

/-- Of two records with canonically equivalent ids and the same time, one is not listed in pages of
one record. -/
theorem not_paged :
  Std.TransCmp canonicalListing.localeCompare ∧ ¬ (ListsAll canonicalListing
        ⟨[sampleRecord "\u00e9" "first", sampleRecord "e\u0301" "second"], by decide⟩ ∧
      ExportsAll canonicalListing
        ⟨[sampleRecord "\u00e9" "first", sampleRecord "e\u0301" "second"], by decide⟩)
  := by
  use transCmp_canonical
  intro h
  have hseparated := separated_of_listsAll transCmp_canonical h.1 (.workspace "w") (by decide)
  have hboth : ([sampleRecord "\u00e9" "first", sampleRecord "e\u0301" "second"].filter
      fun record => canonicalListing.canAccess (.workspace "w") record.scope) =
        [sampleRecord "\u00e9" "first", sampleRecord "e\u0301" "second"] := by decide
  rw [hboth, pairwise_pair] at hseparated
  apply hseparated
  decide

end Storage
