import VolundCode.Lib.Frontmatter
import VolundCode.Lib.Json
import VolundCode.Storage.MemoryChecks

/-!
# Memory records as Markdown files

A record is a file: its metadata are the YAML front matter, and its content is what stands behind
it. A record that the service holds is read back from its file, whenever the file was written, if
there is no colon in its id (`parse_serialize`); a record with a colon in its id never is
(`parse_of_colon`), as the grammar of ids that files are read with does not have it.
-/

namespace Storage

open List Json

/-- The YAML package: the text of a value, and the value a text stands for. -/
structure Yaml where
  stringify : Json → List Char
  parse : List Char → Option Json

/-- The text of a value ends with a line feed, has no line that is a fence, and stands for the
value. -/
structure Yaml.RoundTrips (yaml : Yaml) (v : Json) : Prop where
  ends : ∃ matter, yaml.stringify v = matter ++ ['\n']
  unfenced : Frontmatter.Unfenced (yaml.stringify v)
  parse : yaml.parse (yaml.stringify v) = some v

/-- The text of a value stands for the same without the line feed at its end. -/
def Yaml.Trims (yaml : Yaml) (v : Json) : Prop :=
  yaml.parse (yaml.stringify v).dropLast = yaml.parse (yaml.stringify v)

def memoryRecordSchemaVersion : Decimal :=
  1

/-! ### Writing -/

def ProvenanceSource.name : ProvenanceSource → String
  | .user => "user"
  | .agent => "agent"
  | .evolution => "evolution"
  | .imported => "import"

def MemoryAttachmentState.name : MemoryAttachmentState → String
  | .active => "active"
  | .invalidated => "invalidated"
  | .deleted => "deleted"

def MemoryRecordScope.kind : MemoryRecordScope → String
  | .workspace _ => "workspace"
  | .project _ _ => "project"
  | .session _ _ _ => "session"

def MemoryRecordScope.workspaceId : MemoryRecordScope → String
  | .workspace w => w
  | .project w _ => w
  | .session w _ _ => w

def MemoryRecordScope.projectId : MemoryRecordScope → Option String
  | .workspace _ => none
  | .project _ p => some p
  | .session _ p _ => some p

def MemoryRecordScope.sessionId : MemoryRecordScope → Option String
  | .workspace _ => none
  | .project _ _ => none
  | .session _ _ s => some s

/-- A text, or `null`. -/
def nullable (s : Option String) : Json :=
  (s.map Json.str).getD .null

def attachmentJson (a : MemoryRecordAttachment) : Json :=
  .obj [("schemaVersion", .num 1), ("id", .str a.id), ("handle", .str a.handle),
    ("mime", .str a.mime), ("size", .num (Decimal.make a.size 0)), ("digest", .str a.digest),
    ("state", .str a.state.name), ("createdAt", .str a.createdAt),
    ("invalidatedAt", nullable a.invalidatedAt), ("deletedAt", nullable a.deletedAt)]

def importedFromJson (from_ : ImportedFrom) : Json :=
  .obj (("source", .str from_.source.name) :: (optional "actorId" (from_.actorId.map .str) ++
      optional "sourceId" (from_.sourceId.map .str)))

def frontmatterMembers (record : MemoryRecord) : List (String × Json) :=
  [("schemaVersion", .num memoryRecordSchemaVersion), ("id", .str record.id),
      ("scope", .str record.scope.kind), ("workspaceId", .str record.scope.workspaceId)] ++
    optional "projectId" (record.scope.projectId.map .str) ++
    optional "sessionId" (record.scope.sessionId.map .str) ++
    [("tags", .arr (record.tags.map .str)), ("pinned", .bool record.pinned),
      ("createdAt", .str record.createdAt), ("updatedAt", .str record.updatedAt),
      ("deletedAt", nullable record.deletedAt), ("source", .str record.provenance.source.name)] ++
    optional "actorId" (record.provenance.actorId.map .str) ++
    optional "sourceId" (record.provenance.sourceId.map .str) ++
    optional "importedFrom" (record.provenance.importedFrom.map importedFromJson) ++
    optional "attachments"
      (if 0 < record.attachments.length then some (.arr (record.attachments.map attachmentJson))
        else none)

def frontmatterFor (record : MemoryRecord) : Json :=
  .obj (frontmatterMembers record)

def serializeRecord (yaml : Yaml) (record : MemoryRecord) : List Char :=
  Frontmatter.join (yaml.stringify (frontmatterFor record)) record.content.toList

/-! ### Reading -/

/-- The grammar of ids that files are read with. -/
def identifierPattern (value : String) : Bool :=
  isIdentifier ['.', '_', '-'] value

/-- The value of a member that is a string. -/
def stringMember (ms : List (String × Json)) (key : String) : Option String :=
  match Json.member ms key with
  | some (.str s) => some s
  | _ => none

def parseScope (frontmatter : List (String × Json)) : Option MemoryRecordScope := do
  let workspaceId ← (stringMember frontmatter "workspaceId").filter (· ≠ "")
  let kind := stringMember frontmatter "scope"
  if kind = some "workspace" then return .workspace workspaceId
  let projectId ← (stringMember frontmatter "projectId").filter (· ≠ "")
  if kind = some "project" then return .project workspaceId projectId
  let sessionId ← (stringMember frontmatter "sessionId").filter (· ≠ "")
  if kind = some "session" then return .session workspaceId projectId sessionId
  none

variable (env : MemoryExternals)

def parseTimestamp : Option Json → Option String
  | some (.str s) => if env.isDate s then some s else none
  | _ => none

/-- What stands for no time of deletion, or the time of it; or neither. -/
def parseDeletedAt : Option Json → Option (Option String)
  | none => some none
  | some .null => some none
  | some v => (parseTimestamp env (some v)).map some

def expectBoolean : Json → Option Bool
  | .bool b => some b
  | _ => none

def expectString : Json → Option String
  | .str s => some s
  | _ => none

def expectStringArray : Json → Option (List String)
  | .arr vs => vs.mapM expectString
  | _ => none

def provenanceSource (name : String) : Option ProvenanceSource :=
  [ProvenanceSource.user, .agent, .evolution, .imported].find? fun source => source.name = name

def expectProvenanceSource : Option Json → Option ProvenanceSource
  | some (.str s) => provenanceSource s
  | _ => none

/-- What stands for no earlier provenance, or the earlier provenance; or neither. -/
def parseImportedFrom : Option Json → Option (Option ImportedFrom)
  | none => some none
  | some (.obj imported) =>
    (expectProvenanceSource (Json.member imported "source")).map fun source =>
      some
        { source := source
          actorId := stringMember imported "actorId"
          sourceId := stringMember imported "sourceId" }
  | some _ => none

def attachmentState (name : String) : Option MemoryAttachmentState :=
  [MemoryAttachmentState.active, .invalidated, .deleted].find? fun state => state.name = name

def expectNullable : Option Json → Option (Option String)
  | some .null => some none
  | some (.str s) => some (some s)
  | _ => none

/-- An attachment that is valid, and has no other members than an attachment has. -/
def expectAttachment : Json → Option MemoryRecordAttachment
  | .obj ms => do
    let .num version ← Json.member ms "schemaVersion" | none
    guard (version = 1)
    let id ← stringMember ms "id"
    let handle ← stringMember ms "handle"
    let mime ← stringMember ms "mime"
    let .num number ← Json.member ms "size" | none
    let size ← number.integer
    let digest ← stringMember ms "digest"
    let state ← (stringMember ms "state").bind attachmentState
    let createdAt ← stringMember ms "createdAt"
    let invalidatedAt ← expectNullable (Json.member ms "invalidatedAt")
    let deletedAt ← expectNullable (Json.member ms "deletedAt")
    some
        { id := id
          handle := handle
          mime := mime
          size := size
          digest := digest
          state := state
          createdAt := createdAt
          invalidatedAt := invalidatedAt
          deletedAt := deletedAt : MemoryRecordAttachment }
      |>.filter (validateMemoryRecordAttachment env)
  | _ => none

def expectAttachments : Json → Option (List MemoryRecordAttachment)
  | .arr vs => vs.mapM (expectAttachment env)
  | _ => none

def recordFromFrontmatter : Json → String → ℤ → Option MemoryRecord
  | .obj frontmatter, content, mtimeMs => do
    let .num version ← Json.member frontmatter "schemaVersion" | none
    guard (version = memoryRecordSchemaVersion)
    let id ← (stringMember frontmatter "id").filter identifierPattern
    let scope ← parseScope frontmatter
    let fallbackTime := Ecma.toISOString mtimeMs
    let createdAt := (parseTimestamp env (Json.member frontmatter "createdAt")).getD fallbackTime
    let updatedAt := (parseTimestamp env (Json.member frontmatter "updatedAt")).getD createdAt
    let deletedAt ← parseDeletedAt env (Json.member frontmatter "deletedAt")
    let pinned ← (Json.member frontmatter "pinned").elim (some false) expectBoolean
    let tags ← (Json.member frontmatter "tags").elim (some []) expectStringArray
    let source ← (Json.member frontmatter "source").elim (some .user)
      fun v => expectProvenanceSource (some v)
    let importedFrom ← parseImportedFrom (Json.member frontmatter "importedFrom")
    let attachments ←
      (Json.member frontmatter "attachments").elim (some []) (expectAttachments env)
    some
      { id := id
        scope := scope
        content := content
        provenance :=
          { source := source
            actorId := stringMember frontmatter "actorId"
            sourceId := stringMember frontmatter "sourceId"
            importedFrom := importedFrom }
        attachments := attachments
        tags := tags
        pinned := pinned
        createdAt := createdAt
        updatedAt := updatedAt
        deletedAt := deletedAt }
  | _, _, _ => none

def parseMemoryFile (yaml : Yaml) (raw : List Char) (mtimeMs : ℤ) : Option MemoryRecord := do
  let (matter, content) ← Frontmatter.split raw
  let frontmatter ← yaml.parse matter
  recordFromFrontmatter env frontmatter (String.ofList content) mtimeMs

/-! ### What is written is read back -/

/-- What each element is read back from is read back from the list. -/
theorem mapM_map {α β : Type} {write : α → β} {read : β → Option α} {as : List α}
    (h : ∀ a ∈ as, read (write a) = some a) :
  (as.map write).mapM read = some as
  := by
  induction as with
  | nil => rfl
  | cons a as ih =>
    rw [map_cons, mapM_cons, h a mem_cons_self, ih fun b hb => h b (mem_cons_of_mem a hb)]
    rfl

theorem provenanceSource_name (source : ProvenanceSource) :
  provenanceSource source.name = some source
  := by
  cases source
  all_goals decide +kernel

theorem attachmentState_name (state : MemoryAttachmentState) :
  attachmentState state.name = some state
  := by
  cases state
  all_goals decide +kernel

theorem expectNullable_nullable (s : Option String) :
  expectNullable (some (nullable s)) = some s
  := by
  cases s
  all_goals rfl

theorem parseImportedFrom_json (from_ : ImportedFrom) :
  parseImportedFrom (some (importedFromJson from_)) = some (some from_)
  := by
  cases from_ with
  | mk source actorId sourceId =>
  cases actorId
  all_goals
    cases sourceId
    all_goals
      simp [parseImportedFrom, importedFromJson, expectProvenanceSource, stringMember,
        member_cons, member_append, member_optional, provenanceSource_name]

theorem expectAttachment_json {a : MemoryRecordAttachment}
    (h : validateMemoryRecordAttachment env a) :
  expectAttachment env (attachmentJson a) = some a
  := by
  simp [expectAttachment, attachmentJson, stringMember, member_cons,
    Decimal.integer_make, attachmentState_name, expectNullable_nullable, h, guard]

/-- A scope none of whose parts is empty. -/
def MemoryRecordScope.Named (scope : MemoryRecordScope) : Prop :=
  scope.workspaceId ≠ "" ∧ scope.projectId ≠ some "" ∧ scope.sessionId ≠ some ""

theorem named_of_validateScope {scope : MemoryRecordScope} (h : validateScope scope = .ok ()) :
  scope.Named
  := by
  have hne : ∀ s, validIdentifier s → s ≠ "" := by
    rintro s hs rfl
    cases hs
  cases scope with
  | workspace w =>
    simp only [validateScope] at h
    split_ifs at h with hw
    exact ⟨hne w hw, nofun, nofun⟩
  | project w p =>
    simp only [validateScope] at h
    split_ifs at h with hw hp
    exact ⟨hne w hw, by simpa [MemoryRecordScope.projectId] using hne p hp, nofun⟩
  | session w p s =>
  simp only [validateScope] at h
  split_ifs at h with hw hp hs
  exact ⟨hne w hw, by simpa [MemoryRecordScope.projectId] using hne p hp,
    by simpa [MemoryRecordScope.sessionId] using hne s hs⟩

theorem stringMember_optional {o : Option String} {ms : List (String × Json)} {key : String}
    (h : Json.member ms key = o.map .str) :
  stringMember ms key = o
  := by
  rw [stringMember, h]
  cases o
  all_goals rfl

variable {record : MemoryRecord}

theorem parseScope_frontmatter (h : record.scope.Named) :
  parseScope (frontmatterMembers record) = some record.scope
  := by
  obtain ⟨hw, hp, hs⟩ := h
  have hkind : stringMember (frontmatterMembers record) "scope" = some record.scope.kind :=
    stringMember_optional (by simp [frontmatterMembers, member_cons])
  have hworkspace : stringMember (frontmatterMembers record) "workspaceId" =
      some record.scope.workspaceId :=
    stringMember_optional (by simp [frontmatterMembers, member_cons])
  have hproj : stringMember (frontmatterMembers record) "projectId" = record.scope.projectId :=
    stringMember_optional
      (by simp [frontmatterMembers, member_cons, member_append, member_optional])
  have hsess : stringMember (frontmatterMembers record) "sessionId" = record.scope.sessionId :=
    stringMember_optional
      (by simp [frontmatterMembers, member_cons, member_append, member_optional])
  rw [parseScope, hkind, hworkspace, hproj, hsess]
  cases hscope : record.scope with
  | workspace w =>
    rw [hscope] at hw
    have hw' : w ≠ "" := hw
    simp [MemoryRecordScope.workspaceId, MemoryRecordScope.kind, Option.filter, hw']
  | project w p =>
    rw [hscope] at hw hp
    have hw' : w ≠ "" := hw
    have hp' : p ≠ "" := fun heq => hp (congrArg some heq)
    simp [MemoryRecordScope.workspaceId, MemoryRecordScope.kind, MemoryRecordScope.projectId,
      Option.filter, hw', hp']
  | session w p s =>
  rw [hscope] at hw hp hs
  have hw' : w ≠ "" := hw
  have hp' : p ≠ "" := fun heq => hp (congrArg some heq)
  have hs' : s ≠ "" := fun heq => hs (congrArg some heq)
  simp [MemoryRecordScope.workspaceId, MemoryRecordScope.kind, MemoryRecordScope.projectId,
    MemoryRecordScope.sessionId, Option.filter, hw', hp', hs']

theorem parseDeletedAt_nullable {deletedAt : Option String}
    (h : ∀ s, deletedAt = some s → env.isDate s) :
  parseDeletedAt env (some (nullable deletedAt)) = some deletedAt
  := by
  cases deletedAt with
  | none => rfl
  | some s => simp [parseDeletedAt, nullable, parseTimestamp, h s rfl]

theorem parseImportedFrom_map (importedFrom : Option ImportedFrom) :
  parseImportedFrom (importedFrom.map importedFromJson) = some importedFrom
  := by
  cases importedFrom with
  | none => rfl
  | some from_ => apply parseImportedFrom_json

/-- No attachments are read where the front matter has none. -/
theorem expectAttachments_json {attachments : List MemoryRecordAttachment}
    (h : ∀ a ∈ attachments, validateMemoryRecordAttachment env a) :
  (if 0 < attachments.length then some (Json.arr (attachments.map attachmentJson))
    else none).elim (some []) (expectAttachments env) = some attachments
  := by
  have hmap : (attachments.map attachmentJson).mapM (expectAttachment env) = some attachments :=
    mapM_map fun a ha => expectAttachment_json env (h a ha)
  split_ifs with hlen
  · apply hmap
  · obtain rfl : attachments = [] := eq_nil_of_length_eq_zero (by omega)
    rfl

variable {mtimeMs : ℤ}

/-- The front matter of a record is read as the record, if its parts pass the checks that files
are read with. -/
theorem recordFromFrontmatter_frontmatterFor
    (hid : identifierPattern record.id) (hscope : record.scope.Named)
    (hmade : env.isDate record.createdAt) (hupdated : env.isDate record.updatedAt)
    (hdel : ∀ s, record.deletedAt = some s → env.isDate s)
    (hvalid : ∀ a ∈ record.attachments, validateMemoryRecordAttachment env a) :
  recordFromFrontmatter env (frontmatterFor record) record.content mtimeMs = some record
  := by
  have htags : expectStringArray (.arr (record.tags.map .str)) = some record.tags :=
    mapM_map fun _ _ => rfl
  have hactor : stringMember (frontmatterMembers record) "actorId" = record.provenance.actorId :=
    stringMember_optional
      (by simp [frontmatterMembers, member_cons, member_append, member_optional])
  have hsrc : stringMember (frontmatterMembers record) "sourceId" = record.provenance.sourceId :=
    stringMember_optional
      (by simp [frontmatterMembers, member_cons, member_append, member_optional])
  have hid' : stringMember (frontmatterMembers record) "id" = some record.id :=
    stringMember_optional (by simp [frontmatterMembers, member_cons])
  rw [frontmatterFor, recordFromFrontmatter, parseScope_frontmatter hscope, hactor, hsrc, hid']
  simp [frontmatterMembers, Json.member_cons, Json.member_append, Json.member_optional, guard,
    Option.filter, parseTimestamp, expectBoolean, expectProvenanceSource, provenanceSource_name,
    hid, hmade, hupdated, parseDeletedAt_nullable env hdel, htags, parseImportedFrom_map,
    expectAttachments_json env hvalid]

/-- Front matter with an id that files are not read with is read as no record. -/
theorem recordFromFrontmatter_of_id {content : String} (hid : identifierPattern record.id = false) :
  recordFromFrontmatter env (frontmatterFor record) content mtimeMs = none
  := by
  have hid' : stringMember (frontmatterMembers record) "id" = some record.id :=
    stringMember_optional (by simp [frontmatterMembers, member_cons])
  rw [frontmatterFor, recordFromFrontmatter, hid']
  simp only [Option.filter, hid, guard]
  cases Json.member (frontmatterMembers record) "schemaVersion" with
  | none => rfl
  | some v =>
    cases v
    all_goals simp

/-- The ids of the service that files are read with are those without a colon. -/
theorem identifierPattern_iff {id : String} (h : validIdentifier id) :
  identifierPattern id ↔ ':' ∉ id.toList
  := by
  constructor
  · intro hid hcolon
    rcases mem_of_isIdentifier hid hcolon with h | h
    · cases h
    · cases h
  intro hcolon
  apply isIdentifier_mono (isIdentifier_of_validIdentifier h)
  intro c hc hp
  have hne : c ≠ ':' := fun heq => hcolon (heq ▸ hc)
  simp only [contains_cons, contains_nil, Bool.or_false, Bool.or_eq_true, beq_iff_eq] at hp ⊢
  tauto

/-- The front matter of a file is what was written into it. -/
theorem split_serialize {yaml : Yaml}
    (h : yaml.RoundTrips (frontmatterFor record)) (htrims : yaml.Trims (frontmatterFor record)) :
  parseMemoryFile env yaml (serializeRecord yaml record) mtimeMs =
    recordFromFrontmatter env (frontmatterFor record) record.content mtimeMs
  := by
  obtain ⟨matter, hmatter⟩ := h.ends
  have hunfenced := h.unfenced
  have hparse := h.parse
  rw [← htrims, hmatter, dropLast_concat] at hparse
  rw [hmatter] at hunfenced
  rw [parseMemoryFile, serializeRecord, hmatter, Frontmatter.split_join hunfenced]
  simp only [Option.bind_eq_bind, Option.bind_some, hparse, String.ofList_toList]

/-- A record that the service holds is read back from its file, if there is no colon in its id. -/
theorem parse_serialize {yaml : Yaml} (htimes : env.ReadsTimes)
    (hheld : Held env record) (h : yaml.RoundTrips (frontmatterFor record))
    (htrims : yaml.Trims (frontmatterFor record)) (hcolon : ':' ∉ record.id.toList) :
  parseMemoryFile env yaml (serializeRecord yaml record) mtimeMs = some record
  := by
  rw [split_serialize env h htrims]
  obtain ⟨t, hmade⟩ := hheld.created
  obtain ⟨u, hupdated⟩ := hheld.updated
  apply recordFromFrontmatter_frontmatterFor env ((identifierPattern_iff hheld.id).mpr hcolon)
    (named_of_validateScope hheld.scope) (hmade ▸ htimes t) (hupdated ▸ htimes u) _ hheld.valid
  intro s hs
  obtain ⟨v, rfl⟩ := hheld.deleted s hs
  apply htimes v

/-- A record with a colon in its id is never read back. -/
theorem parse_of_colon {yaml : Yaml} (hheld : Held env record)
    (h : yaml.RoundTrips (frontmatterFor record))
    (htrims : yaml.Trims (frontmatterFor record)) (hcolon : ':' ∈ record.id.toList) :
  parseMemoryFile env yaml (serializeRecord yaml record) mtimeMs = none
  := by
  rw [split_serialize env h htrims]
  apply recordFromFrontmatter_of_id
  rw [Bool.eq_false_iff]
  intro hid
  apply (identifierPattern_iff hheld.id).mp hid hcolon

end Storage
