import Mathlib.Data.Int.Notation
import Mathlib.Data.List.Basic

/-!
# Memory records

The records of the memory service, with their scopes, provenance and attachments. Times are the
ISO strings they are stored as.
-/

namespace Storage

open List

inductive MemoryRecordScope where
  | workspace (workspaceId : String)
  | project (workspaceId projectId : String)
  | session (workspaceId projectId sessionId : String)
deriving DecidableEq

/-- Who a record comes from; `imported` is the source `import`. -/
inductive ProvenanceSource where
  | user
  | agent
  | evolution
  | imported
deriving DecidableEq

/-- The provenance an imported record had. -/
structure ImportedFrom where
  source : ProvenanceSource
  actorId : Option String
  sourceId : Option String
deriving DecidableEq

structure MemoryProvenance where
  source : ProvenanceSource
  actorId : Option String
  sourceId : Option String
  importedFrom : Option ImportedFrom
deriving DecidableEq

inductive MemoryAttachmentState where
  | active
  | invalidated
  | deleted
deriving DecidableEq

structure MemoryRecordAttachment where
  id : String
  handle : String
  mime : String
  size : ℤ
  digest : String
  state : MemoryAttachmentState
  createdAt : String
  invalidatedAt : Option String
  deletedAt : Option String
deriving DecidableEq

structure MemoryRecord where
  id : String
  scope : MemoryRecordScope
  content : String
  provenance : MemoryProvenance
  attachments : List MemoryRecordAttachment
  tags : List String
  pinned : Bool
  createdAt : String
  updatedAt : String
  deletedAt : Option String
deriving DecidableEq

/-- The records a service holds, by id. -/
structure MemoryRecords where
  records : List MemoryRecord
  nodup : (records.map MemoryRecord.id).Nodup

/-- The record with the id of `record` is replaced by it, or it is added. -/
def setRecord (record : MemoryRecord) : List MemoryRecord → List MemoryRecord
  | [] => [record]
  | r :: rs => if r.id = record.id then record :: rs else r :: setRecord record rs

theorem mem_map_setRecord {record : MemoryRecord} {records : List MemoryRecord} {id : String} :
  id ∈ (setRecord record records).map MemoryRecord.id ↔
    id = record.id ∨ id ∈ records.map MemoryRecord.id
  := by
  induction records with
  | nil => simp [setRecord]
  | cons r rs ih =>
  rw [setRecord]
  split_ifs with heq
  · simp [heq]
  · simp only [map_cons, mem_cons, ih]
    tauto

theorem nodup_setRecord {record : MemoryRecord} {records : List MemoryRecord}
    (h : (records.map MemoryRecord.id).Nodup) :
  ((setRecord record records).map MemoryRecord.id).Nodup
  := by
  induction records with
  | nil => simp [setRecord]
  | cons r rs ih =>
  rw [map_cons, nodup_cons] at h
  rw [setRecord]
  split_ifs with heq
  · rw [map_cons, nodup_cons, ← heq]
    apply h
  · rw [map_cons, nodup_cons, mem_map_setRecord]
    use fun hmem => hmem.elim heq h.1
    apply ih h.2

/-- The records with the record `record` among them. -/
def MemoryRecords.set (facts : MemoryRecords) (record : MemoryRecord) : MemoryRecords where
  records := setRecord record facts.records
  nodup := nodup_setRecord facts.nodup

/-- The records with other ids stay as they are, and the record is there once. -/
theorem perm_setRecord {record : MemoryRecord} {records : List MemoryRecord}
    (h : (records.map MemoryRecord.id).Nodup) :
  (setRecord record records).Perm (record :: records.filter fun r => r.id ≠ record.id)
  := by
  induction records with
  | nil => simp [setRecord]
  | cons r rs ih =>
  rw [map_cons, nodup_cons] at h
  rw [setRecord]
  split_ifs with heq
  · have hrest : rs.filter (fun r => r.id ≠ record.id) = rs := by
      rw [filter_eq_self]
      intro q hq
      have hne : q.id ≠ r.id := fun hid => h.1 (hid ▸ mem_map_of_mem hq)
      simpa [heq] using hne
    rw [filter_cons_of_neg (by simpa using heq), hrest]
  · rw [filter_cons_of_pos (by simpa using heq)]
    apply ((ih h.2).cons r).trans
    apply Perm.swap

end Storage
