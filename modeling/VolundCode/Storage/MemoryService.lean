import VolundCode.Lib.IsoTime
import VolundCode.Lib.Run
import VolundCode.Storage.MemoryChecks

/-!
# The memory service

`DefaultMemoryService` holds the memory records of a repository. Its mutations wait in a queue;
each of them is decided on the records of the repository (`evaluate`), is seen by readers from then
on, and counts once the repository has saved it. A transition of an attachment reads the record on
its own, before its update enters the queue.

A step is what happens between two awaits: a call, the read of a transition, its update, the start
of a mutation, and the end of its save, which may fail.
-/

namespace Storage

open Run MemoryRecords

/-! ### Environment -/

/-- What the service uses of its environment: that of its checks, how `Date.parse` reads texts
other than those of `toISOString`, and its policy. -/
structure ServiceExternals where
  checks : MemoryExternals
  legacyDate : String → Option ℤ
  canAccess : MemoryRecordScope → MemoryRecordScope → Bool

/-- `HierarchicalMemoryPolicy.canAccess`. -/
def hierarchicalAccess : MemoryRecordScope → MemoryRecordScope → Bool
  | .workspace w, .workspace w' => w = w'
  | .project w p, .project w' p' => w = w' && p = p'
  | .session w p s, .session w' p' s' => w = w' && p = p' && s = s'
  | _, _ => false

/-- `Date.parse(s)`. -/
def ServiceExternals.dateParse (env : ServiceExternals) (s : String) : Option ℤ :=
  match Ecma.parseTime s with
  | some t => some t
  | none => if s = "" then none else env.legacyDate s

/-- The milliseconds of a date are at most these. -/
def maxTime : ℕ :=
  8640000000000000

def memoryNotFound (message : String) : MemoryError where
  code := "memory_not_found"
  message := message

def memoryConflict (message : String) : MemoryError where
  code := "memory_conflict"
  message := message

/-- What the error of a date that cannot be written becomes. -/
def memoryIo : MemoryError where
  code := "memory_io"
  message := "Unable to persist memory"

/-- `new Date(t).toISOString()`, which fails if there is no such date. -/
def isoDate (t : ℤ) : Except MemoryError String :=
  if t.natAbs ≤ maxTime then .ok (Ecma.toISOString t) else .error memoryIo

/-! ### Records by id -/

/-- The record with an id. -/
def MemoryRecords.get (facts : MemoryRecords) (id : String) : Option MemoryRecord :=
  facts.records.find? fun record => record.id = id

/-- The records without those of the ids. -/
def MemoryRecords.remove (facts : MemoryRecords) (ids : List String) : MemoryRecords where
  records := facts.records.filter fun record => !ids.contains record.id
  nodup := by
    apply List.Sublist.nodup _ facts.nodup
    apply List.filter_sublist.map

variable {facts : MemoryRecords} {record : MemoryRecord}

theorem MemoryRecords.get_eq_some {id : String} :
  facts.get id = some record ↔ record ∈ facts.records ∧ record.id = id
  := by
  constructor
  · intro h
    use List.mem_of_find?_eq_some h
    simpa using List.find?_some h
  rintro ⟨hmem, rfl⟩
  obtain ⟨found, hfound⟩ : ∃ found, facts.get record.id = some found := by
    apply Option.isSome_iff_exists.mp
    rw [MemoryRecords.get, List.find?_isSome]
    use record, hmem
    simp
  have hid : found.id = record.id := by simpa using List.find?_some hfound
  rw [hfound, List.inj_on_of_nodup_map facts.nodup (List.mem_of_find?_eq_some hfound) hmem hid]

/-- Two records with one id are the same. -/
theorem MemoryRecords.eq_of_id {q r : MemoryRecord}
    (hq : q ∈ facts.records) (hr : r ∈ facts.records) (hid : q.id = r.id) :
  q = r
  := List.inj_on_of_nodup_map facts.nodup hq hr hid

theorem MemoryRecords.mem_set {q : MemoryRecord} :
  q ∈ (facts.set record).records ↔ q = record ∨ q ∈ facts.records ∧ q.id ≠ record.id
  := by
  rw [MemoryRecords.set, (perm_setRecord facts.nodup).mem_iff]
  simp

/-- A record is found where it has been set, and all others as before. -/
theorem MemoryRecords.get_set {id : String} :
  (facts.set record).get id = if id = record.id then some record else facts.get id
  := by
  apply Option.ext
  intro q
  rw [get_eq_some, MemoryRecords.mem_set]
  split
  · rename_i hid
    constructor
    · rintro ⟨rfl | ⟨-, hne⟩, hq⟩
      · rfl
      · exact absurd (hq.trans hid) hne
    · intro h
      cases h
      use Or.inl rfl, hid.symm
  rename_i hne
  rw [get_eq_some]
  constructor
  · rintro ⟨rfl | ⟨hmem, -⟩, hq⟩
    · exact absurd hq.symm hne
    · use hmem, hq
  · rintro ⟨hmem, hq⟩
    use Or.inr ⟨hmem, fun heq => hne (hq.symm.trans heq)⟩, hq

/-- A record that has been set is found. -/
theorem MemoryRecords.get_set_self {id : String} (hid : record.id = id) :
  (facts.set record).get id = some record
  := by
  rw [get_set, if_pos hid.symm]

theorem MemoryRecords.mem_remove {q : MemoryRecord} {ids : List String} :
  q ∈ (facts.remove ids).records ↔ q ∈ facts.records ∧ q.id ∉ ids
  := by
  simp [MemoryRecords.remove]

/-- The record is a tombstone. -/
def MemoryRecord.isDeleted (record : MemoryRecord) : Bool :=
  record.deletedAt.any (· ≠ "")

/-! ### Mutations -/

/-- What a record is created from; the id is given or drawn. -/
structure NewMemoryRecord where
  id : String
  scope : MemoryRecordScope
  content : String
  provenance : MemoryProvenance
  tags : Option (List String)
  pinned : Option Bool
  attachments : Option (List MemoryRecordAttachment)
deriving DecidableEq

/-- What an update changes. -/
structure MemoryPatch where
  content : Option String
  tags : Option (List String)
  pinned : Option Bool
  provenance : Option MemoryProvenance
  attachments : Option (List MemoryRecordAttachment)
deriving DecidableEq

/-- The patch that changes nothing. -/
def MemoryPatch.none : MemoryPatch where
  content := Option.none
  tags := Option.none
  pinned := Option.none
  provenance := Option.none
  attachments := Option.none

/-- A mutation in the queue. `expected` is the `expectedUpdatedAt` of its options. -/
inductive MemoryMutation where
  | create (input : NewMemoryRecord)
  | update (scope : MemoryRecordScope) (id : String) (patch : MemoryPatch)
      (expected : Option String)
  | delete (scope : MemoryRecordScope) (id : String) (expected : Option String)
  | move (scope : MemoryRecordScope) (id : String) (target : MemoryRecordScope)
      (expected : Option String)
  | gcSessions (cutoff : String)
deriving DecidableEq

/-- `pin` and `unpin`. -/
def MemoryMutation.pin (scope : MemoryRecordScope) (id : String) (pinned : Bool)
    (expected : Option String) : MemoryMutation :=
  .update scope id { MemoryPatch.none with pinned := some pinned } expected

/-- What a mutation does to the records. -/
inductive Change where
  | keep
  | write (record : MemoryRecord)
  | purge (ids : List String)

def Change.apply : Change → MemoryRecords → MemoryRecords
  | .keep, facts => facts
  | .write record, facts => facts.set record
  | .purge ids, facts => facts.remove ids

/-- The records that a change writes. -/
def Change.written : Change → List MemoryRecord
  | .write record => [record]
  | _ => []

section Evaluation

variable (env : ServiceExternals) (records : MemoryRecords) (verdict : Except MemoryError Unit)
  (now : ℤ)

/-- `nextTimestamp`. -/
def nextTimestamp (previous : String) : Except MemoryError String :=
  match env.dateParse previous with
  | none => .error memoryIo
  | some t => isoDate (max now (t + 1))

/-- `#runPreWrite`: `verdict` is that of the hook. -/
def runPreWrite (id content : String) : Except MemoryError Unit := do
  builtinPreWrite env.checks id content
  verdict

/-- `#require`. -/
def require (scope : MemoryRecordScope) (id : String) : Except MemoryError MemoryRecord := do
  validateScope scope
  match records.get id with
  | some record =>
    if env.canAccess scope record.scope then .ok record
    else .error (memoryNotFound ("Memory " ++ id ++ " was not found"))
  | none => .error (memoryNotFound ("Memory " ++ id ++ " was not found"))

/-- `#checkVersion`. -/
def checkVersion (record : MemoryRecord) (expected : Option String) : Except MemoryError Unit :=
  if expected.any fun version => version ≠ "" && version ≠ record.updatedAt then
    .error (memoryConflict ("Memory " ++ record.id ++ " changed concurrently"))
  else .ok ()

/-- The record must not be a tombstone. -/
def checkPresent (record : MemoryRecord) : Except MemoryError Unit :=
  if record.isDeleted then
    .error (memoryNotFound ("Memory " ++ record.id ++ " is deleted"))
  else .ok ()

/-- The input asks for the record that is already there. -/
def NewMemoryRecord.repeats (input : NewMemoryRecord) (existing : MemoryRecord)
    (tags : List String) (attachments : List MemoryRecordAttachment) : Bool :=
  !existing.isDeleted && env.canAccess input.scope existing.scope &&
    existing.content = input.content && existing.pinned = input.pinned.getD false &&
    existing.tags = tags && existing.attachments = attachments &&
    existing.provenance = input.provenance

/-- A new record, in the place of a tombstone if there is one. -/
def createRecord (input : NewMemoryRecord) : Except MemoryError Change := do
  runPreWrite env verdict input.id input.content
  let time ← isoDate now
  let attachments ← normalizeAttachments env.checks (input.attachments.getD [])
  let tags ← normalizeTags (input.tags.getD [])
  return .write
    { id := input.id
      scope := input.scope
      content := input.content
      provenance := input.provenance
      attachments := attachments
      tags := tags
      pinned := input.pinned.getD false
      createdAt := time
      updatedAt := time
      deletedAt := none }

/-- `create`. -/
def evaluateCreate (input : NewMemoryRecord) : Except MemoryError Change := do
  validateScope input.scope
  match records.get input.id with
  | none => createRecord env verdict now input
  | some existing =>
    let tags ← normalizeTags (input.tags.getD [])
    let attachments ← normalizeAttachments env.checks (input.attachments.getD [])
    if input.repeats env existing tags attachments then return .keep
    else if !existing.isDeleted || !env.canAccess input.scope existing.scope then
      .error (memoryConflict ("Memory " ++ input.id ++ " exists"))
    else createRecord env verdict now input

/-- The hooks see an update that changes the content. -/
def admitPatch (id : String) (patch : MemoryPatch) : Except MemoryError Unit :=
  match patch.content with
  | some content => runPreWrite env verdict id content
  | none => .ok ()

/-- The tags after an update. -/
def patchedTags (current : MemoryRecord) (patch : MemoryPatch) :
    Except MemoryError (List String) :=
  match patch.tags with
  | some tags => normalizeTags tags
  | none => .ok current.tags

/-- The attachments after an update. -/
def patchedAttachments (current : MemoryRecord) (patch : MemoryPatch) :
    Except MemoryError (List MemoryRecordAttachment) :=
  match patch.attachments with
  | some attachments => normalizeAttachments env.checks attachments
  | none => .ok current.attachments

/-- The record after an update, but for its time. -/
def patched (current : MemoryRecord) (patch : MemoryPatch) (tags : List String)
    (attachments : List MemoryRecordAttachment) : MemoryRecord :=
  { current with
    content := patch.content.getD current.content
    tags := tags
    pinned := patch.pinned.getD current.pinned
    provenance := patch.provenance.getD current.provenance
    attachments := attachments }

/-- `update`. -/
def evaluateUpdate (scope : MemoryRecordScope) (id : String) (patch : MemoryPatch)
    (expected : Option String) : Except MemoryError Change := do
  let current ← require env records scope id
  checkPresent current
  checkVersion current expected
  admitPatch env verdict id patch
  let tags ← patchedTags current patch
  let attachments ← patchedAttachments env current patch
  let record := patched current patch tags attachments
  if record = current then return .keep
  else
    let time ← nextTimestamp env now current.updatedAt
    return .write { record with updatedAt := time }

/-- `delete`. -/
def evaluateDelete (scope : MemoryRecordScope) (id : String) (expected : Option String) :
    Except MemoryError Change := do
  let current ← require env records scope id
  if current.isDeleted then return .keep
  else
    checkVersion current expected
    let time ← nextTimestamp env now current.updatedAt
    return .write { current with pinned := false, updatedAt := time, deletedAt := some time }

/-- `move`. -/
def evaluateMove (scope : MemoryRecordScope) (id : String) (target : MemoryRecordScope)
    (expected : Option String) : Except MemoryError Change := do
  let current ← require env records scope id
  checkPresent current
  checkVersion current expected
  validateScope target
  if target = current.scope then return .keep
  else
    let time ← nextTimestamp env now current.updatedAt
    return .write { current with scope := target, updatedAt := time }

/-- The record is in a session and was last touched before the cutoff. -/
def MemoryRecord.expired (cutoff : String) (record : MemoryRecord) : Bool :=
  match record.scope with
  | .session _ _ _ => decide (Ecma.units record.updatedAt < Ecma.units cutoff)
  | _ => false

/-- What a mutation does to the records it finds, or why it is rejected. -/
def evaluate : MemoryMutation → Except MemoryError Change
  | .create input => evaluateCreate env records verdict now input
  | .update scope id patch expected =>
    evaluateUpdate env records verdict now scope id patch expected
  | .delete scope id expected => evaluateDelete env records now scope id expected
  | .move scope id target expected => evaluateMove env records now scope id target expected
  | .gcSessions cutoff =>
    .ok (.purge ((records.records.filter (MemoryRecord.expired cutoff)).map MemoryRecord.id))

end Evaluation

/-! ### Transitions of attachments -/

/-- The call of `invalidateAttachment` or `deleteAttachment`. -/
structure Transition where
  scope : MemoryRecordScope
  id : String
  attachmentId : String
  state : { state : MemoryAttachmentState // state ≠ .active }
  expected : Option String
deriving DecidableEq

/-- The attachment in its new state. -/
def Transition.settle (t : Transition) (time : String) (a : MemoryRecordAttachment) :
    MemoryRecordAttachment :=
  if a.id = t.attachmentId then
    { a with
      state := t.state.val
      invalidatedAt := some (a.invalidatedAt.getD time)
      deletedAt := if t.state.val = .deleted then some time else none }
  else a

/-- `#transitionAttachment` up to its update: what it finds in the records it reads. There is
nothing to do for an attachment that is deleted or already in the state. -/
def Transition.observe (env : ServiceExternals) (records : MemoryRecords) (now : ℤ)
    (t : Transition) : Except MemoryError (Option (List MemoryRecordAttachment)) := do
  match records.get t.id with
  | none => .error (memoryNotFound ("Memory " ++ t.id ++ " was not found"))
  | some current =>
    if !env.canAccess t.scope current.scope || current.isDeleted then
      .error (memoryNotFound ("Memory " ++ t.id ++ " was not found"))
    else
      checkVersion current t.expected
      match current.attachments.find? fun a => a.id = t.attachmentId with
      | none =>
        .error (memoryNotFound ("Memory attachment " ++ t.attachmentId ++ " was not found"))
      | some attachment =>
        if attachment.state = .deleted ∨ attachment.state = t.state.val then return none
        else
          let time ← isoDate now
          return some (current.attachments.map (t.settle time))

/-! ### The service -/

/-- A mutation in the queue, and the transition it carries out if there is one. -/
structure Job where
  mutation : MemoryMutation
  transition : Option Transition

/-- The update of a transition. -/
def Transition.job (t : Transition) (attachments : List MemoryRecordAttachment) : Job where
  mutation := .update t.scope t.id { MemoryPatch.none with attachments := some attachments }
    t.expected
  transition := some t

/-- A mutation that has been decided, at the clock's `now`, and is being saved. -/
structure Running where
  job : Job
  now : ℤ
  change : Change

/-- A call that has returned without an error. -/
inductive Done where
  | mutation (mutation : MemoryMutation)
  | transition (transition : Transition)
deriving DecidableEq

/-- What a job is the end of. -/
def Job.done (job : Job) : Done :=
  match job.transition with
  | some t => .transition t
  | none => .mutation job.mutation

/-- The service with its repository. `records` is what readers see, `stored` what the repository
holds, `pending` the updates of transitions that have not entered the queue yet. `history` has all
records that have ever been stored, `done` the calls that have succeeded. -/
structure MemoryService where
  records : MemoryRecords
  stored : MemoryRecords
  pending : List Job
  waiting : List Job
  running : Option Running
  history : List MemoryRecord
  done : List Done

/-- A service that has started on the records of its repository. -/
def MemoryService.start (stored : MemoryRecords) : MemoryService where
  records := stored
  stored := stored
  pending := []
  waiting := []
  running := none
  history := stored.records
  done := []

/-- What happens to the service between two awaits. -/
inductive ServiceAction where
  | call (mutation : MemoryMutation)
  | attach (transition : Transition) (now : ℤ)
  | submit (index : ℕ)
  | begin (verdict : Except MemoryError Unit) (now : ℤ)
  | save (succeeds : Bool)

namespace MemoryService

/-- The first mutation of the queue starts: a rejected one leaves the records of the repository. -/
def begin (env : ServiceExternals) (s : MemoryService) (verdict : Except MemoryError Unit)
    (now : ℤ) (job : Job) (waiting : List Job) : MemoryService :=
  match evaluate env s.stored verdict now job.mutation with
  | .error _ => { s with records := s.stored, waiting := waiting }
  | .ok change =>
    { s with
      records := change.apply s.stored
      waiting := waiting
      running := some { job := job, now := now, change := change } }

/-- The repository has saved the records, or has failed to. -/
def save (s : MemoryService) (running : Running) (succeeds : Bool) : MemoryService :=
  if succeeds then
    { s with
      stored := s.records
      running := none
      history := s.history ++ running.change.written
      done := s.done ++ [running.job.done] }
  else { s with records := s.stored, running := none }

/-- A transition reads the record. -/
def attach (env : ServiceExternals) (s : MemoryService) (t : Transition) (now : ℤ) :
    MemoryService :=
  match t.observe env s.records now with
  | .error _ => s
  | .ok none => { s with done := s.done ++ [.transition t] }
  | .ok (some attachments) => { s with pending := s.pending ++ [t.job attachments] }

end MemoryService

/-- One step of the service, if it can be taken. -/
def serviceStep (env : ServiceExternals) (s : MemoryService) : ServiceAction → Option MemoryService
  | .call mutation =>
    some { s with waiting := s.waiting ++ [{ mutation := mutation, transition := none }] }
  | .attach t now => some (s.attach env t now)
  | .submit index =>
    s.pending[index]?.map fun job =>
      { s with pending := s.pending.eraseIdx index, waiting := s.waiting ++ [job] }
  | .begin verdict now =>
    match s.running, s.waiting with
    | none, job :: waiting => some (s.begin env verdict now job waiting)
    | _, _ => none
  | .save succeeds => s.running.map fun running => s.save running succeeds

/-! ### What a mutation writes -/

section Evaluation

variable {env : ServiceExternals} {records : MemoryRecords} {verdict : Except MemoryError Unit}
  {now : ℤ}

/-- One time is before another, as `Date.parse` reads them. -/
def ServiceExternals.earlier (env : ServiceExternals) (u v : String) : Bool :=
  match env.dateParse u, env.dateParse v with
  | some a, some b => decide (a < b)
  | _, _ => false

theorem earlier_iff {u v : String} :
  env.earlier u v ↔ ∃ a b, env.dateParse u = some a ∧ env.dateParse v = some b ∧ a < b
  := by
  unfold ServiceExternals.earlier
  split
  · next a b ha hb => simp [ha, hb]
  rename_i hne
  constructor
  · intro h
    cases h
  · rintro ⟨a, b, ha, hb, -⟩
    exact absurd hb (hne a b ha)

theorem earlier_trans {u v w : String} (huv : env.earlier u v) (hvw : env.earlier v w) :
  env.earlier u w
  := by
  obtain ⟨a, b, ha, hb, hab⟩ := earlier_iff.mp huv
  obtain ⟨b', c, hb', hc, hbc⟩ := earlier_iff.mp hvw
  obtain rfl := Option.some.inj (hb.symm.trans hb')
  apply earlier_iff.mpr
  use a, c, ha, hc, hab.trans hbc

/-- No time is before itself. -/
theorem not_earlier_self (u : String) :
  env.earlier u u = false
  := by
  rw [Bool.eq_false_iff]
  intro h
  obtain ⟨a, b, ha, hb, hab⟩ := earlier_iff.mp h
  obtain rfl := Option.some.inj (ha.symm.trans hb)
  exact absurd hab (lt_irrefl a)

theorem dateParse_of_parseTime {s : String} {t : ℤ} (h : Ecma.parseTime s = some t) :
  env.dateParse s = some t
  := by
  unfold ServiceExternals.dateParse
  rw [h]

@[simp]
theorem dateParse_toISOString (t : ℤ) :
  env.dateParse (Ecma.toISOString t) = some t
  := dateParse_of_parseTime (Ecma.parseTime_toISOString t)

/-- A time that is after another is a text. -/
theorem ne_empty_of_earlier {u v : String} (h : env.earlier u v) :
  v ≠ ""
  := by
  rintro rfl
  obtain ⟨_, b, -, hb, -⟩ := earlier_iff.mp h
  cases hb

/-- The next time of a record is after its last one, whatever the clock says. -/
theorem earlier_nextTimestamp {previous time : String}
    (h : nextTimestamp env now previous = .ok time) :
  env.earlier previous time
  := by
  unfold nextTimestamp isoDate at h
  split at h
  · cases h
  rename_i t ht
  split at h
  · rw [← Except.ok.inj h]
    apply earlier_iff.mpr
    refine ⟨t, max now (t + 1), ht, dateParse_toISOString _, ?_⟩
    omega
  · cases h

/-- What is bound to a result succeeds if both do. -/
theorem bind_eq_ok {ε α β : Type} {x : Except ε α} {f : α → Except ε β} {b : β} :
  (x >>= f) = .ok b ↔ ∃ a, x = .ok a ∧ f a = .ok b
  := by
  cases x with
  | ok a =>
    constructor
    · intro h
      use a, rfl, h
    · rintro ⟨a', ha, hf⟩
      cases ha
      apply hf
  | error e =>
  constructor
  · intro h
    cases h
  · rintro ⟨_, h, _⟩
    cases h

variable {id : String} {scope : MemoryRecordScope}

theorem require_eq_ok {current : MemoryRecord} (h : require env records scope id = .ok current) :
  records.get id = some current
  := by
  obtain ⟨_, _, h⟩ := bind_eq_ok.mp h
  split at h
  · rename_i record hget
    split at h
    · rw [hget, Except.ok.inj h]
    · cases h
  · cases h

variable {expected : Option String}

theorem checkVersion_eq_ok {record : MemoryRecord} {u : Unit}
    (h : checkVersion record expected = .ok u) :
  ∀ version ∈ expected, version = "" ∨ version = record.updatedAt
  := by
  unfold checkVersion at h
  split at h
  · cases h
  rename_i hnot
  intro version hver
  by_contra hne
  apply hnot
  rw [Option.mem_def.mp hver]
  simpa using hne

theorem checkPresent_eq_ok {record : MemoryRecord} {u : Unit} (h : checkPresent record = .ok u) :
  record.isDeleted = false
  := by
  unfold checkPresent at h
  split at h
  · cases h
  · next hnot => simpa using hnot

variable {change : Change}

/-- What is created: the input at the time of the clock. -/
theorem createRecord_eq_ok {input : NewMemoryRecord}
    (h : createRecord env verdict now input = .ok change) :
  ∃ tags, normalizeTags (input.tags.getD []) = .ok tags ∧ change = .write
      { id := input.id
        scope := input.scope
        content := input.content
        provenance := input.provenance
        attachments := input.attachments.getD []
        tags := tags
        pinned := input.pinned.getD false
        createdAt := Ecma.toISOString now
        updatedAt := Ecma.toISOString now
        deletedAt := none }
  := by
  obtain ⟨_, _, h⟩ := bind_eq_ok.mp h
  obtain ⟨time, htime, h⟩ := bind_eq_ok.mp h
  obtain ⟨attachments, hatts, h⟩ := bind_eq_ok.mp h
  obtain ⟨tags, htags, h⟩ := bind_eq_ok.mp h
  have hsame : time = Ecma.toISOString now := by
    unfold isoDate at htime
    split at htime
    · apply (Except.ok.inj htime).symm
    · cases htime
  use tags, htags
  rw [← hsame, ← (valid_of_normalizeAttachments hatts).1]
  apply (Except.ok.inj h).symm

/-- A create finds its record there already, or writes it where there is none or a tombstone. -/
theorem evaluateCreate_eq_ok {input : NewMemoryRecord}
    (h : evaluateCreate env records verdict now input = .ok change) :
  (change = .keep ∧ ∃ existing tags, records.get input.id = some existing ∧
      normalizeTags (input.tags.getD []) = .ok tags ∧
      input.repeats env existing tags (input.attachments.getD [])) ∨
    (∀ existing ∈ records.get input.id, existing.isDeleted) ∧
      createRecord env verdict now input = .ok change
  := by
  obtain ⟨_, _, h⟩ := bind_eq_ok.mp h
  split at h
  · rename_i hnone
    right
    constructor
    · intro existing hex
      rw [hnone] at hex
      cases hex
    · apply h
  rename_i existing hex
  obtain ⟨tags, htags, h⟩ := bind_eq_ok.mp h
  obtain ⟨attachments, hatts, h⟩ := bind_eq_ok.mp h
  split at h
  · rename_i hrepeats
    left
    use (Except.ok.inj h).symm, existing, tags, hex, htags
    rw [← (valid_of_normalizeAttachments hatts).1]
    apply hrepeats
  split at h
  · cases h
  rename_i hfree
  right
  constructor
  · intro other hother
    obtain rfl := Option.some.inj (hex.symm.trans hother)
    simp only [Bool.or_eq_true, Bool.not_eq_true', not_or] at hfree
    simpa using hfree.1
  · apply h

/-- What an update that succeeds found, and what it writes. -/
theorem evaluateUpdate_eq_ok {patch : MemoryPatch}
    (h : evaluateUpdate env records verdict now scope id patch expected = .ok change) :
  ∃ current tags attachments, records.get id = some current ∧ current.isDeleted = false ∧
    (∀ version ∈ expected, version = "" ∨ version = current.updatedAt) ∧
    patchedTags current patch = .ok tags ∧
    patchedAttachments env current patch = .ok attachments ∧
    (patched current patch tags attachments = current ∧ change = .keep ∨
      ∃ time, nextTimestamp env now current.updatedAt = .ok time ∧
        change = .write { patched current patch tags attachments with updatedAt := time })
  := by
  obtain ⟨current, hcur, h⟩ := bind_eq_ok.mp h
  obtain ⟨_, hpres, h⟩ := bind_eq_ok.mp h
  obtain ⟨_, hver, h⟩ := bind_eq_ok.mp h
  obtain ⟨_, _, h⟩ := bind_eq_ok.mp h
  obtain ⟨tags, htags, h⟩ := bind_eq_ok.mp h
  obtain ⟨attachments, hatts, h⟩ := bind_eq_ok.mp h
  use current, tags, attachments, require_eq_ok hcur, checkPresent_eq_ok hpres,
    checkVersion_eq_ok hver, htags, hatts
  dsimp only at h
  split at h
  · rename_i hsame
    left
    use hsame
    apply (Except.ok.inj h).symm
  right
  obtain ⟨time, htime, h⟩ := bind_eq_ok.mp h
  use time, htime
  apply (Except.ok.inj h).symm

/-- The attachments that an update leads to are those given, or those of the record. -/
theorem patchedAttachments_eq_ok {current : MemoryRecord}
    {patch : MemoryPatch} {attachments : List MemoryRecordAttachment}
    (h : patchedAttachments env current patch = .ok attachments) :
  attachments = patch.attachments.getD current.attachments
  := by
  unfold patchedAttachments at h
  cases hp : patch.attachments with
  | none =>
    rw [hp] at h
    apply (Except.ok.inj h).symm
  | some given =>
    rw [hp] at h
    apply (valid_of_normalizeAttachments h).1

/-- What a delete that succeeds found, and what it writes. -/
theorem evaluateDelete_eq_ok
    (h : evaluateDelete env records now scope id expected = .ok change) :
  ∃ current, records.get id = some current ∧ (current.isDeleted ∧ change = .keep ∨
      current.isDeleted = false ∧ ∃ time, nextTimestamp env now current.updatedAt = .ok time ∧
        change = .write
          { current with pinned := false, updatedAt := time, deletedAt := some time })
  := by
  obtain ⟨current, hcur, h⟩ := bind_eq_ok.mp h
  use current, require_eq_ok hcur
  split at h
  · rename_i hdel
    left
    use hdel
    apply (Except.ok.inj h).symm
  rename_i hpres
  right
  use by simpa using hpres
  obtain ⟨_, _, h⟩ := bind_eq_ok.mp h
  obtain ⟨time, htime, h⟩ := bind_eq_ok.mp h
  use time, htime
  apply (Except.ok.inj h).symm

/-- What a move that succeeds found, and what it writes. -/
theorem evaluateMove_eq_ok {target : MemoryRecordScope}
    (h : evaluateMove env records now scope id target expected = .ok change) :
  ∃ current, records.get id = some current ∧
    (change = .keep ∨ ∃ time, nextTimestamp env now current.updatedAt = .ok time ∧
      change = .write { current with scope := target, updatedAt := time })
  := by
  obtain ⟨current, hcur, h⟩ := bind_eq_ok.mp h
  obtain ⟨_, _, h⟩ := bind_eq_ok.mp h
  obtain ⟨_, _, h⟩ := bind_eq_ok.mp h
  obtain ⟨_, _, h⟩ := bind_eq_ok.mp h
  use current, require_eq_ok hcur
  split at h
  · left
    apply (Except.ok.inj h).symm
  right
  obtain ⟨time, htime, h⟩ := bind_eq_ok.mp h
  use time, htime
  apply (Except.ok.inj h).symm

/-- The id of the record that a mutation is about. -/
def MemoryMutation.target : MemoryMutation → Option String
  | .create input => some input.id
  | .update _ id _ _ => some id
  | .delete _ id _ => some id
  | .move _ id _ _ => some id
  | .gcSessions _ => none

/-- A mutation leaves the records as they are or writes the one it is about. -/
theorem target_of_evaluate {mutation : MemoryMutation}
    (h : evaluate env records verdict now mutation = .ok change)
    (htgt : mutation.target = some id) :
  change = .keep ∨ ∃ record, change = .write record ∧ record.id = id
  := by
  cases mutation with
  | create input =>
    cases htgt
    rcases evaluateCreate_eq_ok h with ⟨hkeep, -⟩ | ⟨-, hmade⟩
    · left
      apply hkeep
    · right
      obtain ⟨tags, -, hwrite⟩ := createRecord_eq_ok hmade
      exact ⟨_, hwrite, rfl⟩
  | update scope id patch expected =>
    cases htgt
    obtain ⟨current, tags, attachments, hget, -, -, -, -, ⟨-, hkeep⟩ | ⟨time, -, hwrite⟩⟩ :=
      evaluateUpdate_eq_ok h
    · left
      apply hkeep
    · right
      exact ⟨_, hwrite, (get_eq_some.mp hget).2⟩
  | delete scope id expected =>
    cases htgt
    obtain ⟨current, hget, ⟨-, hkeep⟩ | ⟨-, time, -, hwrite⟩⟩ := evaluateDelete_eq_ok h
    · left
      apply hkeep
    · right
      exact ⟨_, hwrite, (get_eq_some.mp hget).2⟩
  | move scope id target expected =>
    cases htgt
    obtain ⟨current, hget, hkeep | ⟨time, -, hwrite⟩⟩ := evaluateMove_eq_ok h
    · left
      apply hkeep
    · right
      exact ⟨_, hwrite, (get_eq_some.mp hget).2⟩
  | gcSessions cutoff => cases htgt

/-- A mutation is decided by the record it is about. -/
theorem evaluate_congr {mutation : MemoryMutation} {other : MemoryRecords}
    (htgt : mutation.target = some id) (hget : records.get id = other.get id) :
  evaluate env records verdict now mutation = evaluate env other verdict now mutation
  := by
  cases mutation with
  | create input =>
    cases htgt
    simp only [evaluate, evaluateCreate, hget]
  | update scope id patch expected =>
    cases htgt
    simp only [evaluate, evaluateUpdate, require, hget]
  | delete scope id expected =>
    cases htgt
    simp only [evaluate, evaluateDelete, require, hget]
  | move scope id target expected =>
    cases htgt
    simp only [evaluate, evaluateMove, require, hget]
  | gcSessions cutoff => cases htgt

/-- What a mutation writes is created at the time of the clock, or is the next version of a record
that is there. -/
theorem written_of_evaluate {mutation : MemoryMutation} {record : MemoryRecord}
    (h : evaluate env records verdict now mutation = .ok (.write record)) :
  (∃ input, mutation = .create input ∧ record.id = input.id ∧
      record.updatedAt = Ecma.toISOString now) ∨
    ∃ current ∈ records.records, current.id = record.id ∧
      nextTimestamp env now current.updatedAt = .ok record.updatedAt
  := by
  cases mutation with
  | create input =>
    left
    rcases evaluateCreate_eq_ok h with ⟨hkeep, -⟩ | ⟨-, hmade⟩
    · cases hkeep
    · obtain ⟨tags, -, hwrite⟩ := createRecord_eq_ok hmade
      cases hwrite
      use input, rfl, rfl
  | update scope id patch expected =>
    right
    obtain ⟨current, tags, attachments, hget, -, -, -, -, ⟨-, hkeep⟩ | ⟨time, htime, hwrite⟩⟩ :=
      evaluateUpdate_eq_ok h
    · cases hkeep
    · cases hwrite
      use current, (get_eq_some.mp hget).1, rfl
  | delete scope id expected =>
    right
    obtain ⟨current, hget, ⟨-, hkeep⟩ | ⟨-, time, htime, hwrite⟩⟩ := evaluateDelete_eq_ok h
    · cases hkeep
    · cases hwrite
      use current, (get_eq_some.mp hget).1, rfl
  | move scope id target expected =>
    right
    obtain ⟨current, hget, hkeep | ⟨time, htime, hwrite⟩⟩ := evaluateMove_eq_ok h
    · cases hkeep
    · cases hwrite
      use current, (get_eq_some.mp hget).1, rfl
  | gcSessions cutoff => cases h

end Evaluation

/-! ### Mutations being saved -/

/-- Without a mutation being saved, readers see the records of the repository; otherwise what the
mutation makes of them. -/
structure Decided (env : ServiceExternals) (s : MemoryService) : Prop where
  quiet : s.running = none → s.records = s.stored
  running : ∀ running ∈ s.running, s.records = running.change.apply s.stored ∧
    ∃ verdict, evaluate env s.stored verdict running.now running.job.mutation = .ok running.change

theorem decided_start (env : ServiceExternals) (stored : MemoryRecords) :
  Decided env (.start stored)
  := by
  constructor
  · intro _
    rfl
  · intro running h
    cases h

theorem Decided.step {env : ServiceExternals} {s t : MemoryService} {a : ServiceAction}
    (h : Decided env s) (hstep : serviceStep env s a = some t) :
  Decided env t
  := by
  cases a with
  | call mutation =>
    cases hstep
    use h.quiet, h.running
  | attach transition now =>
    cases hstep
    unfold MemoryService.attach
    split
    · apply h
    all_goals use h.quiet, h.running
  | submit index =>
    obtain ⟨job, _, rfl⟩ := Option.map_eq_some_iff.mp hstep
    use h.quiet, h.running
  | begin verdict now =>
    unfold serviceStep at hstep
    dsimp only at hstep
    split at hstep
    · rename_i job waiting hidle hwait
      cases hstep
      unfold MemoryService.begin
      split
      · constructor
        · intro _
          rfl
        · intro running hruns
          rw [hidle] at hruns
          cases hruns
      rename_i change hchg
      constructor
      · intro hnone
        cases hnone
      · intro running hruns
        cases hruns
        use rfl, verdict
    · cases hstep
  | save succeeds =>
  obtain ⟨running, _, rfl⟩ := Option.map_eq_some_iff.mp hstep
  unfold MemoryService.save
  split
  all_goals
    constructor
    · intro _
      rfl
    · intro _ hruns
      cases hruns

end Storage
