import Mathlib.Data.List.Induction
import VolundCode.Core.Evolution

/-!
# The store of adjustments

The records of adjustments are kept in one history for each namespace, and all together in an audit
log. The values that are persisted for the context are what the records of its history come to,
one after the other (`projectContext`), where a record that does not continue from the value so
far, or leads to values that are not valid, is passed over. They are always valid
(`current_valid`).

A record is appended when it is well formed, is not older than the last one, continues from the
value that is persisted, and leads to valid values (`append_ok_iff`). Then the values persisted are
those it leads to (`current_append`).
-/

namespace Storage

namespace EvolutionStore

open Core.Evolution

/-! ### Records -/

/-- A name of something measured: a small letter, followed by small letters, digits and some
punctuation. -/
def isSignalKey (key : String) : Bool :=
  match key.toList with
  | [] => false
  | c :: cs =>
    c.isLower && cs.all fun c => c.isLower || c.isDigit || ['_', '.', ':', '-'].contains c

/-- What is measured has at most 32 names, and its numbers are at most a million. -/
def decodesSignal (signal : Signal) : Bool :=
  decide (signal.length ≤ 32) && signal.all fun entry =>
    decide (entry.1.utf8ByteSize ≤ 64) && isSignalKey entry.1 && decide (|entry.2| ≤ 1000000)

/-- The parameters that the store knows: not those of single tools. -/
def knownParam : Param → Bool
  | .tool _ => false
  | _ => true

/-- The value can be one of the parameter. -/
def decodesValue (param : Param) (value : ℚ) : Bool :=
  decide (|value| ≤ 1000000000) &&
    match param with
    | .context p => isContextTunableValue p value
    | _ => true

/-- The action agrees with the values before and after it. -/
def decodesAction (action : EvolutionAction) (before after : ℚ) : Bool :=
  match action with
  | .stopped => decide (before = after)
  | .adjusted => decide (before ≠ after)
  | .rolledBack => decide (before ≠ after)
  | .confirmationRejected => true

/-- The reason is at most 1024 bytes long. -/
def decodesReason (reason : String) : Bool :=
  decide (reason.utf8ByteSize ≤ 1024)

/-- The record is well formed. -/
def decodes (record : EvolutionRecord) : Bool :=
  knownParam record.param && decodesValue record.param record.before &&
    decodesValue record.param record.after && decodesReason record.reason &&
      decodesSignal record.signal && decodesAction record.action record.before record.after

/-- A record that is well formed. -/
abbrev DecodedEvolutionRecord : Type := { record : EvolutionRecord // decodes record = true }

/-! ### The store -/

/-- The histories of the namespaces, the audit log, and the namespaces with records of a version to
come. -/
structure State where
  histories : Namespace → List DecodedEvolutionRecord
  audit : List DecodedEvolutionRecord
  future : Namespace → Bool

/-- Why a record is not appended. -/
inductive Refusal where
  | invalidRecord
  | futureSchema
  | timeRegression
  | continuityMismatch
  | contextBounds
deriving DecidableEq

/-- The values after a record, if it continues from the values so far. -/
def projectRecord (values : Snapshot) (record : DecodedEvolutionRecord) : Snapshot :=
  match record.1.param with
  | .context p =>
    if record.1.before = values p then
      let candidate := Function.update values p record.1.after
      if isValidContextTuningSnapshot candidate then candidate else values
    else values
  | _ => values

/-- What the records come to. -/
def projectContext (history : List DecodedEvolutionRecord) : Snapshot :=
  history.foldl projectRecord contextDefaults

/-- The values of the context that are persisted. -/
def State.current (s : State) : Snapshot :=
  if s.future .context then contextDefaults else projectContext (s.histories .context)

/-- The record is older than the last one of its namespace. -/
def State.regresses (s : State) (record : EvolutionRecord) : Bool :=
  (s.histories record.param.namespace).getLast?.any fun previous =>
    decide (record.time < previous.1.time)

/-- The record is put at the end of the history of its namespace and of the audit log. -/
def State.push (s : State) (record : DecodedEvolutionRecord) : State where
  histories := Function.update s.histories record.1.param.namespace
    (s.histories record.1.param.namespace ++ [record])
  audit := s.audit ++ [record]
  future := s.future

variable (sanitize : String → String)

/-- The record without the secrets in its reason. -/
def clean (record : EvolutionRecord) : EvolutionRecord :=
  { record with reason := sanitize record.reason }

/-- Why the store does not take a well formed record, if it does not. -/
def State.refusal (s : State) (record : EvolutionRecord) : Option Refusal :=
  if s.future record.param.namespace then some .futureSchema
  else if s.regresses record then some .timeRegression
  else
    match record.param with
    | .context p =>
      if record.before ≠ s.current p then some .continuityMismatch
      else if isValidContextTuningSnapshot (Function.update s.current p record.after) then none
      else some .contextBounds
    | _ => none

/-- A record is appended, or refused. -/
def State.append (s : State) (record : EvolutionRecord) : Except Refusal State :=
  if decodes record then
    if h : decodes (clean sanitize record) = true then
      match s.refusal (clean sanitize record) with
      | some refusal => .error refusal
      | none => .ok (s.push ⟨clean sanitize record, h⟩)
    else .error .invalidRecord
  else .error .invalidRecord

/-! ### What is persisted is valid -/

theorem projectRecord_valid {values : Snapshot} (h : Valid values) (record : DecodedEvolutionRecord) :
  Valid (projectRecord values record)
  := by
  rw [projectRecord]
  split
  · dsimp only
    split_ifs with hpre hvalid
    · exact hvalid
    · exact h
    · exact h
  · exact h

theorem projectContext_valid (history : List DecodedEvolutionRecord) :
  Valid (projectContext history)
  := by
  induction history using List.reverseRecOn with
  | nil => exact defaults_valid
  | append_singleton history record ih =>
    rw [projectContext, List.foldl_append, List.foldl_cons, List.foldl_nil]
    exact projectRecord_valid ih record

/-- The values that are persisted are valid. -/
theorem current_valid (s : State) :
  Valid s.current
  := by
  rw [State.current]
  split_ifs
  · exact defaults_valid
  · exact projectContext_valid _

/-! ### What is appended -/

/-- The record is appended as one without secrets, if it is well formed and not refused. -/
theorem append_ok_iff {s t : State} {record : EvolutionRecord} :
  s.append sanitize record = .ok t ↔ decodes record ∧ s.refusal (clean sanitize record) = none ∧
      ∃ h, t = s.push ⟨clean sanitize record, h⟩
  := by
  rw [State.append]
  split_ifs with hrec hclean
  · cases href : s.refusal (clean sanitize record) with
    | some refusal => simp
    | none =>
      simp only [Except.ok.injEq, true_and, hrec]
      constructor
      · rintro rfl
        exact ⟨hclean, rfl⟩
      · rintro ⟨_, rfl⟩
        rfl
  · simp [hclean]
  · simp [hrec]

/-- A record that is not refused as older or by a version to come continues from the values that are
persisted and leads to valid values. -/
theorem refusal_eq_none_iff {s : State} {record : EvolutionRecord} :
  s.refusal record = none ↔ s.future record.param.namespace = false ∧ s.regresses record = false ∧
      ∀ p, record.param = .context p →
        record.before = s.current p ∧ Valid (Function.update s.current p record.after)
  := by
  rw [State.refusal]
  split_ifs with hfut hregresses
  · simp [hfut]
  · simp [hregresses]
  rw [Bool.not_eq_true] at hfut hregresses
  simp only [hfut, hregresses, true_and]
  cases hparam : record.param with
  | context p =>
    dsimp only
    split_ifs with hpre hvalid
    · simp [hpre]
    all_goals simp [not_not.mp hpre, Valid, hvalid]
  | _ => simp

/-- The values persisted after a record of the context are those it leads to. -/
theorem current_push {s : State} {record : DecodedEvolutionRecord} {p : ContextTunableParam}
    (hparam : record.1.param = .context p) (href : s.refusal record.1 = none) :
  (s.push record).current = Function.update s.current p record.1.after
  := by
  obtain ⟨hfut, _, hctx⟩ := refusal_eq_none_iff.mp href
  obtain ⟨hpre, hvalid⟩ := hctx p hparam
  rw [hparam, Param.namespace] at hfut
  have hcur : s.current = projectContext (s.histories .context) := by
    rw [State.current, hfut]
    rfl
  rw [State.current, State.push]
  simp only [hparam, Param.namespace, hfut, Function.update_self, Bool.false_eq_true, if_false]
  rw [projectContext, List.foldl_append, List.foldl_cons, List.foldl_nil, ← projectContext,
    ← hcur, projectRecord, hparam]
  dsimp only
  rw [if_pos hpre]
  exact if_pos hvalid

end EvolutionStore

end Storage
