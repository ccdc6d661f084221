import VolundCode.Lib.Ecma
import VolundCode.Storage.MemoryRecord

/-!
# The checks of the memory service

What the memory service checks of a record before it holds it: its scope, its id, its content,
its tags and its attachments. A record is `Held` if all of it has come through these checks, and
its times are times of the clock.
-/

namespace Storage

structure MemoryError where
  code : String
  message : String
deriving DecidableEq

def memoryValidation (message : String) : MemoryError where
  code := "memory_validation"
  message := message

/-- What the service uses of its environment: whether a text looks like a secret, and whether
`Date.parse` reads a text as a time. -/
structure MemoryExternals where
  detectSecret : String → Bool
  isDate : String → Bool

/-- `Date.parse` reads the times that `toISOString` writes. -/
def MemoryExternals.ReadsTimes (env : MemoryExternals) : Prop :=
  ∀ t, env.isDate (Ecma.toISOString t)

/-! ### Identifiers and scopes -/

/-- Whether a text is a letter or a digit with at most 127 more of these, or of the characters
`punctuation`, behind it. -/
def isIdentifier (punctuation : List Char) (value : String) : Bool :=
  match value.toList with
  | [] => false
  | c :: cs =>
    c.isAlphanum && decide (cs.length ≤ 127) &&
      cs.all fun d => d.isAlphanum || punctuation.contains d

variable {value : String}

/-- An identifier is one by another grammar that allows the punctuation it has. -/
theorem isIdentifier_mono {p q : List Char} (h : isIdentifier p value)
    (hpq : ∀ c ∈ value.toList, p.contains c → q.contains c) :
  isIdentifier q value
  := by
  unfold isIdentifier at h ⊢
  split at h
  · cases h
  rename_i c cs heq
  rw [heq] at hpq
  simp only [Bool.and_eq_true, List.all_eq_true, Bool.or_eq_true] at h ⊢
  use h.1
  intro d hd
  apply (h.2 d hd).imp_right (hpq d (List.mem_cons_of_mem c hd))

/-- The characters of an identifier are letters, digits or punctuation. -/
theorem mem_of_isIdentifier {p : List Char} (h : isIdentifier p value)
    {c : Char} (hc : c ∈ value.toList) :
  c.isAlphanum ∨ p.contains c
  := by
  unfold isIdentifier at h
  split at h
  · cases h
  rename_i d cs heq
  rw [heq, List.mem_cons] at hc
  simp only [Bool.and_eq_true, List.all_eq_true, Bool.or_eq_true] at h
  rcases hc with rfl | hc
  · apply Or.inl h.1.1
  · apply h.2 c hc

/-- An identifier is not empty. -/
theorem ne_nil_of_isIdentifier {p : List Char} (h : isIdentifier p value) :
  value.toList ≠ []
  := by
  unfold isIdentifier at h
  split at h
  · cases h
  · next heq => simp [heq]

def validIdentifier (value : String) : Bool :=
  isIdentifier ['.', '_', ':', '-'] value && value != "." && value != ".."

theorem isIdentifier_of_validIdentifier (h : validIdentifier value) :
  isIdentifier ['.', '_', ':', '-'] value
  := by
  simp only [validIdentifier, Bool.and_eq_true] at h
  apply h.1.1

def validateScope : MemoryRecordScope → Except MemoryError Unit
  | .workspace workspaceId =>
    if validIdentifier workspaceId then .ok ()
    else .error (memoryValidation "workspaceId is invalid")
  | .project workspaceId projectId =>
    if validIdentifier workspaceId then
      if validIdentifier projectId then .ok ()
      else .error (memoryValidation "projectId is invalid")
    else .error (memoryValidation "workspaceId is invalid")
  | .session workspaceId projectId sessionId =>
    if validIdentifier workspaceId then
      if validIdentifier projectId then
        if validIdentifier sessionId then .ok ()
        else .error (memoryValidation "sessionId is invalid")
      else .error (memoryValidation "projectId is invalid")
    else .error (memoryValidation "workspaceId is invalid")

/-! ### Contents and tags -/

/-- Texts of scalar values have no half of a surrogate pair on its own. -/
def hasInvalidUnicode (value : String) : Bool :=
  value.toList.contains (Char.ofNat 0)

def maxMemoryContentBytes : ℕ :=
  64 * 1024

/-- `Buffer.byteLength(value, 'utf8')`. -/
def byteLength (value : String) : ℕ :=
  (value.toList.map Char.utf8Size).sum

def builtinPreWrite (env : MemoryExternals) (id content : String) : Except MemoryError Unit :=
  if !validIdentifier id then .error (memoryValidation "Memory id is invalid")
  else if Ecma.trim content = "" then .error (memoryValidation "Memory content is empty")
  else if hasInvalidUnicode content then
    .error (memoryValidation "Memory content contains invalid Unicode")
  else if maxMemoryContentBytes < byteLength content then
    .error (memoryValidation "Memory content exceeds 64 KiB")
  else if env.detectSecret content then
    .error (memoryValidation "Memory content appears to contain a secret")
  else .ok ()

def normalizeTags (tags : List String) : Except MemoryError (List String) :=
  let normalized := ((tags.map Ecma.trim).filter (· ≠ "")).eraseDups
  if normalized.any fun tag => decide (64 < (Ecma.units tag).length) then
    .error (memoryValidation "Memory tags must not exceed 64 characters")
  else .ok (Ecma.toSorted normalized)

/-! ### Attachments -/

/-- The text of a handle is 64 lower case hexadecimal digits and the ending of an image. -/
def matchesHandle (handle : String) : Bool :=
  let digest := handle.toList.take 64
  decide (digest.length = 64) && (digest.all fun c => c.isDigit || ('a' ≤ c && c ≤ 'f')) &&
    [".png", ".jpg", ".gif", ".webp"].contains (Ecma.slice handle 64)

def matchesMime (mime : String) : Bool :=
  ["image/png", "image/jpeg", "image/gif", "image/webp"].contains mime

/-- `Number.isSafeInteger(n)`. -/
def isSafeInteger (n : ℤ) : Bool :=
  decide (n.natAbs ≤ 2 ^ 53 - 1)

def validateMemoryRecordAttachment (env : MemoryExternals)
    (attachment : MemoryRecordAttachment) : Bool :=
  validIdentifier attachment.id &&
    matchesHandle attachment.handle && Ecma.sliceTo attachment.handle 64 = attachment.digest &&
    matchesMime attachment.mime && isSafeInteger attachment.size &&
    decide (0 < attachment.size) && env.isDate attachment.createdAt &&
    attachment.invalidatedAt.all env.isDate && attachment.deletedAt.all env.isDate

def normalizeAttachments (env : MemoryExternals) (attachments : List MemoryRecordAttachment) :
    Except MemoryError (List MemoryRecordAttachment) :=
  if 64 < attachments.length then
    .error (memoryValidation "Memory cannot reference more than 64 attachments")
  else if !attachments.all (validateMemoryRecordAttachment env) then
    .error (memoryValidation "Memory attachment reference is invalid")
  else if (attachments.map MemoryRecordAttachment.id).eraseDups.length ≠ attachments.length then
    .error (memoryValidation "Memory attachment ids must be unique")
  else .ok attachments

theorem valid_of_normalizeAttachments {env : MemoryExternals}
    {attachments normalized : List MemoryRecordAttachment}
    (h : normalizeAttachments env attachments = .ok normalized) :
  normalized = attachments ∧ ∀ a ∈ attachments, validateMemoryRecordAttachment env a
  := by
  unfold normalizeAttachments at h
  split_ifs at h with hlen hvalid hids
  cases h
  simp only [Bool.not_eq_true', Bool.not_eq_false, List.all_eq_true] at hvalid
  exact ⟨rfl, hvalid⟩

/-! ### Records -/

/-- A record that the service can hold: all of it has come through the checks, and the times are
times of the clock. -/
structure Held (env : MemoryExternals) (record : MemoryRecord) : Prop where
  scope : validateScope record.scope = .ok ()
  content : builtinPreWrite env record.id record.content = .ok ()
  tags : ∃ tags, normalizeTags tags = .ok record.tags
  attachments : ∃ attachments, normalizeAttachments env attachments = .ok record.attachments
  created : ∃ t, record.createdAt = Ecma.toISOString t
  updated : ∃ t, record.updatedAt = Ecma.toISOString t
  deleted : ∀ s, record.deletedAt = some s → ∃ t, s = Ecma.toISOString t

theorem Held.id {env : MemoryExternals} {record : MemoryRecord} (h : Held env record) :
  validIdentifier record.id
  := by
  have hc := h.content
  unfold builtinPreWrite at hc
  split_ifs at hc with hid
  simpa using hid

theorem Held.valid {env : MemoryExternals} {record : MemoryRecord} (h : Held env record) :
  ∀ a ∈ record.attachments, validateMemoryRecordAttachment env a
  := by
  obtain ⟨attachments, hok⟩ := h.attachments
  obtain ⟨heq, hvalid⟩ := valid_of_normalizeAttachments hok
  rw [heq]
  apply hvalid

end Storage
