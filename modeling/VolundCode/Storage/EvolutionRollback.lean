import VolundCode.Shared.Sanitize
import VolundCode.Storage.EvolutionStore

/-!
# Rolling the context parameters back

A record is appended under a journal: the journal is written, then the record is put at the end of
the history of its namespace, then at the end of the audit log, and then the journal is removed. A
journal that is found later is that of an append that was interrupted; the record is taken back,
or kept if it is in both files, and where neither can be shown, nothing is appended any more
(`ensureRecovered`).

`rollbackTo` appends one record for each parameter that differs from a target, each time the first
one that leads to valid values. As long as the values and the target are valid, there is one: if
neither the ratio nor the threshold could go first, the ratio would have to go up and down
(`exists_safe`).

The values to start from are read before the recovery, however. `reaches_iff` says that the target
is reached exactly where the recovery does not take back a record that has been read (`Undone`).
-/

namespace Storage

open List Function

namespace EvolutionStore

open Core.Evolution Shared.Sanitize

deriving instance DecidableEq for EvolutionRecord

/-! ### The journal -/

/-- How far an append has come. -/
inductive EvolutionJournalState where
  | prepared
  | namespaceDurable
  | bothDurable
  | recoveryRequired
deriving DecidableEq

/-- The journal of an append. The sizes of the files before it, and the digests of what they
contained, stand for their contents. -/
structure EvolutionTransactionJournal where
  state : EvolutionJournalState
  record : DecodedEvolutionRecord
  historyBefore : List DecodedEvolutionRecord
  auditBefore : List DecodedEvolutionRecord

/-- What there is of a journal. -/
inductive JournalFile where
  | absent
  | unreadable
  | journal (j : EvolutionTransactionJournal)

/-- The files, and what an object of the store knows about the journal. -/
structure Store where
  files : State
  journal : JournalFile
  journalClean : Bool
  recoveryRequired : Bool

/-- The recovery cannot show what became of the append. -/
def Store.markRecoveryRequired (s : Store) (j : EvolutionTransactionJournal) : Store :=
  { s with journal := .journal { j with state := .recoveryRequired }, recoveryRequired := true }

/-- The files as they were before the append. -/
def Store.abort (s : Store) (j : EvolutionTransactionJournal) : Store where
  files :=
    { s.files with
      histories := Function.update s.files.histories j.record.1.param.namespace j.historyBefore
      audit := j.auditBefore }
  journal := .absent
  journalClean := true
  recoveryRequired := s.recoveryRequired

/-- The recovery from a journal. -/
def Store.recover (s : Store) (j : EvolutionTransactionJournal) : Store :=
  let history := s.files.histories j.record.1.param.namespace
  let historyExtra := history.drop j.historyBefore.length
  let auditExtra := s.files.audit.drop j.auditBefore.length
  if j.state = .recoveryRequired then { s with recoveryRequired := true }
  else if ¬(j.historyBefore <+: history ∧ j.auditBefore <+: s.files.audit) then
    s.markRecoveryRequired j
  else if j.state = .bothDurable then
    if historyExtra = [j.record] ∧ auditExtra = [j.record] then
      { s with journal := .absent, journalClean := true }
    else s.markRecoveryRequired j
  else if historyExtra <+: [j.record] ∧ auditExtra <+: [j.record] then s.abort j
  else s.markRecoveryRequired j

/-- The recovery, if it has not been made yet. -/
def Store.ensureRecovered (s : Store) : Store :=
  if s.recoveryRequired || s.journalClean then s
  else
    match s.journal with
    | .absent => { s with journalClean := true }
    | .unreadable => { s with recoveryRequired := true }
    | .journal j => s.recover j

/-- `current`: the values that are persisted. -/
def Store.current (s : Store) : Snapshot :=
  s.ensureRecovered.files.current

/-! ### The rollback -/

/-- Why the rollback fails. -/
inductive Failure where
  | noSafeOrder
  | recoveryRequired
  | refused (refusal : Refusal)
deriving DecidableEq

/-- A record is appended, after the recovery. -/
def Store.append (s : Store) (record : EvolutionRecord) : Store × Option Failure :=
  let recovered := s.ensureRecovered
  if recovered.recoveryRequired then (recovered, some .recoveryRequired)
  else
    match recovered.files.append sanitize record with
    | .error refusal => (recovered, some (.refused refusal))
    | .ok files => ({ recovered with files, journal := .absent, journalClean := true }, none)

/-- What comes of a rollback. -/
structure Outcome where
  store : Store
  records : List EvolutionRecord
  failure : Option Failure

/-- The record of a parameter that is rolled back. -/
def rollbackRecord (projected target : Snapshot) (p : ContextTunableParam) (at_ : ℤ) :
    EvolutionRecord where
  param := .context p
  before := projected p
  after := target p
  time := at_
  reason := "manual rollback"
  signal := []
  action := .rolledBack

/-- The loop of the rollback, with the readings of the clock. -/
def rollbackLoop (clock : ℕ → ℤ) (target : Snapshot) (pending : List ContextTunableParam)
    (projected : Snapshot) (s : Store) (records : List EvolutionRecord) : Outcome :=
  if pending = [] then { store := s, records, failure := none }
  else
    match _hfind : pending.find? fun p =>
      isValidContextTuningSnapshot (Function.update projected p (target p)) with
    | none => { store := s, records, failure := some .noSafeOrder }
    | some p =>
      let record := rollbackRecord projected target p (clock records.length)
      match s.append record with
      | (s, some failure) => { store := s, records, failure := some failure }
      | (s, none) =>
        rollbackLoop clock target (pending.erase p) (Function.update projected p (target p)) s
          (records ++ [clean sanitize record])
  termination_by pending.length
  decreasing_by
    rw [List.length_erase_of_mem (List.mem_of_find?_eq_some _hfind)]
    have := List.length_pos_of_mem (List.mem_of_find?_eq_some _hfind)
    omega

/-- The parameters that differ from the target. -/
def pendingParams (target projected : Snapshot) : List ContextTunableParam :=
  contextParams.filter fun p => target p ≠ projected p

/-- The rollback to a target, from the values as they are read. -/
def Store.rollbackTo (s : Store) (clock : ℕ → ℤ) (target : Snapshot) : Outcome :=
  rollbackLoop clock target (pendingParams target s.files.current) s.files.current s []

/-- The values to which the context is rolled back: those at a time, or those before the last
record. -/
def Store.target (s : Store) (time : Option ℤ) : Snapshot :=
  let history := s.files.histories .context
  projectContext <|
    match time with
    | some time => history.filter fun record => record.1.time ≤ time
    | none => history.dropLast

/-- `rollback('context', time)`. -/
def Store.rollback (s : Store) (clock : ℕ → ℤ) (time : Option ℤ) : Outcome :=
  if s.files.future .context then { store := s, records := [], failure := none }
  else s.rollbackTo clock (s.target time)

/-! ### What a rollback should do -/

/-- The records lead from values to values, and each of them to valid ones. -/
inductive Leads : Snapshot → List EvolutionRecord → Snapshot → Prop
  | nil (v : Snapshot) : Leads v [] v
  | cons {v w : Snapshot} {p : ContextTunableParam} {record : EvolutionRecord}
      {records : List EvolutionRecord} (hparam : record.param = .context p)
      (hpre : record.before = v p) (hvalid : Valid (Function.update v p record.after))
      (h : Leads (Function.update v p record.after) records w) : Leads v (record :: records) w

/-- The clock does not go back, neither behind the last record. -/
def Punctual (s : Store) (clock : ℕ → ℤ) : Prop :=
  Monotone clock ∧ ∀ previous ∈ (s.ensureRecovered.files.histories .context).getLast?,
    previous.1.time ≤ clock 0

/-- There always is a next parameter, each record leads to valid values, and after the last one
the values persisted are those of the target. The records are only refused where the clock has gone
back, or the journal has to be looked at by hand. -/
structure Reaches (s : Store) (clock : ℕ → ℤ) (target : Snapshot) (o : Outcome) : Prop where
  order : o.failure ≠ some .noSafeOrder
  leads : Leads s.files.current o.records o.store.current
  reached : o.failure = none → o.store.current = target
  completes : s.ensureRecovered.recoveryRequired = false → Punctual s clock → o.failure = none

/-- The recovery takes back a record of the context that changes its values: an append was
interrupted after the record was written to the history, and this object of the store has not looked
at the journal yet. -/
structure Undone (s : Store) (j : EvolutionTransactionJournal) : Prop where
  unseen : s.recoveryRequired = false ∧ s.journalClean = false
  journal : s.journal = .journal j
  state : j.state = .prepared ∨ j.state = .namespaceDurable
  context : j.record.1.param.namespace = .context
  history : s.files.histories .context = j.historyBefore ++ [j.record]
  audit : s.files.audit = j.auditBefore ∨ s.files.audit = j.auditBefore ++ [j.record]
  changes : projectRecord (projectContext j.historyBefore) j.record ≠ projectContext j.historyBefore

/-! ### There is a next parameter -/

/-- Of two changes that are possible together, one is possible alone. Of the sum only that it does
not decrease is used, which its rounding does not change either. -/
theorem room_or {room : ℚ → ℚ} (hroom : Monotone room) {ratio threshold ratio' threshold' : ℚ}
    (h : room ratio ≤ threshold) (h' : room ratio' ≤ threshold') :
  room ratio ≤ threshold' ∨ room ratio' ≤ threshold
  := by
  rcases le_total ratio ratio' with hle | hle
  · left
    apply le_trans (hroom hle) h'
  · right
    apply le_trans (hroom hle) h

theorem valid_iff {v : Snapshot} :
  Valid v ↔ (∀ p, isContextTunableValue p (v p)) ∧ v .targetRatio + 1 / 10 ≤ v .compactionThreshold
  := by
  constructor
  · intro h
    constructor
    · apply h.value
    · rw [Valid, isValidContextTuningSnapshot, Bool.and_eq_true, decide_eq_true_eq] at h
      exact h.2
  · rintro ⟨hvalue, hroom⟩
    rw [Valid, isValidContextTuningSnapshot, Bool.and_eq_true, all_eq_true, decide_eq_true_eq]
    exact ⟨fun p _ => hvalue p, hroom⟩

variable {target : Snapshot}

/-- One parameter takes its value in the target. -/
theorem valid_update {v : Snapshot} (hv : Valid v) (htgt : Valid target)
    (p : ContextTunableParam) (hroom : Function.update v p (target p) .targetRatio + 1 / 10 ≤
      Function.update v p (target p) .compactionThreshold) :
  Valid (Function.update v p (target p))
  := by
  apply valid_iff.mpr
  constructor
  · intro q
    by_cases hq : q = p
    · subst hq
      rw [update_self]
      apply htgt.value
    · rw [update_of_ne hq]
      apply hv.value
  · exact hroom

/-- The parameters that are still to be rolled back. -/
structure Pending (target projected : Snapshot) (pending : List ContextTunableParam) : Prop where
  nodup : pending.Nodup
  mem : ∀ p, p ∈ pending ↔ target p ≠ projected p

theorem pending_pendingParams (target projected : Snapshot) :
  Pending target projected (pendingParams target projected)
  := by
  constructor
  · apply Nodup.filter
    decide
  · intro p
    rw [pendingParams, mem_filter, decide_eq_true_eq]
    exact and_iff_right (mem_contextParams p)

variable {pending : List ContextTunableParam} {projected : Snapshot}

theorem Pending.erase
    (h : Pending target projected pending) (p : ContextTunableParam) :
  Pending target (Function.update projected p (target p)) (pending.erase p)
  := by
  constructor
  · apply h.nodup.erase
  intro q
  rw [h.nodup.mem_erase_iff, h.mem]
  by_cases hq : q = p
  · subst hq
    simp
  · rw [update_of_ne hq]
    exact and_iff_right hq

/-- A parameter that can be rolled back next. -/
theorem exists_safe
    (h : Pending target projected pending) (hproj : Valid projected) (htgt : Valid target)
    (hne : pending ≠ []) :
  ∃ p ∈ pending, Valid (Function.update projected p (target p))
  := by
  have hroom := (valid_iff.mp hproj).2
  have hroom' := (valid_iff.mp htgt).2
  have hmono : Monotone fun ratio : ℚ => ratio + 1 / 10 := by
    intro a b hab
    apply add_le_add_left hab
  by_cases hratio : ContextTunableParam.targetRatio ∈ pending
  · by_cases hthreshold : ContextTunableParam.compactionThreshold ∈ pending
    · rcases room_or hmono hroom hroom' with hfirst | hfirst
      · use .compactionThreshold, hthreshold
        apply valid_update hproj htgt
        simpa using hfirst
      · use .targetRatio, hratio
        apply valid_update hproj htgt
        simpa using hfirst
    use .targetRatio, hratio
    apply valid_update hproj htgt
    rw [h.mem, not_not] at hthreshold
    rw [hthreshold] at hroom'
    simpa using hroom'
  rw [h.mem, not_not] at hratio
  rw [hratio] at hroom'
  obtain ⟨p, hp⟩ := exists_mem_of_ne_nil pending hne
  use p, hp
  apply valid_update hproj htgt
  have hp' : p ≠ .targetRatio := by
    rintro rfl
    exact (h.mem _).mp hp hratio
  rw [update_of_ne hp'.symm]
  cases p with
  | targetRatio => contradiction
  | compactionThreshold => simpa using hroom'
  | keepRecent | summaryKeepRecent => simpa using hroom

/-! ### The recovery -/

/-- What the recovery comes to: nothing in the files changes, or an append is taken back. -/
theorem recover_cases (s : Store) (j : EvolutionTransactionJournal) :
  (s.recover j).files = s.files ∧ ((s.recover j).recoveryRequired ∨ (s.recover j).journalClean) ∨
    (s.recover j = s.abort j ∧ (j.state = .prepared ∨ j.state = .namespaceDurable) ∧
      j.historyBefore <+: s.files.histories j.record.1.param.namespace ∧
      j.auditBefore <+: s.files.audit ∧
      (s.files.histories j.record.1.param.namespace).drop j.historyBefore.length <+: [j.record] ∧
      s.files.audit.drop j.auditBefore.length <+: [j.record])
  := by
  rw [Store.recover]
  split_ifs with hstate hpre hboth hextra hextra
  · left
    exact ⟨rfl, Or.inl rfl⟩
  · left
    exact ⟨rfl, Or.inr rfl⟩
  · left
    exact ⟨rfl, Or.inl rfl⟩
  · right
    refine ⟨rfl, ?_, hpre.1, hpre.2, hextra⟩
    cases hj : j.state with
    | prepared => exact Or.inl rfl
    | namespaceDurable => exact Or.inr rfl
    | bothDurable | recoveryRequired => contradiction
  all_goals
    left
    exact ⟨rfl, Or.inl rfl⟩

/-- After the recovery there is nothing more to recover. -/
theorem ensureRecovered_settled (s : Store) :
  s.ensureRecovered.recoveryRequired ∨ s.ensureRecovered.journalClean
  := by
  rw [Store.ensureRecovered]
  split_ifs with hset
  · rw [Bool.or_eq_true] at hset
    exact hset
  cases s.journal with
  | absent => exact Or.inr rfl
  | unreadable => exact Or.inl rfl
  | journal j =>
  rcases recover_cases s j with ⟨-, h⟩ | ⟨h, -⟩
  · exact h
  · dsimp only
    rw [h]
    exact Or.inr rfl

variable {s : Store}

theorem ensureRecovered_of_settled
    (h : s.recoveryRequired ∨ s.journalClean) :
  s.ensureRecovered = s
  := by
  rw [Store.ensureRecovered, if_pos]
  rw [Bool.or_eq_true]
  exact h

theorem ensureRecovered_idem (s : Store) :
  s.ensureRecovered.ensureRecovered = s.ensureRecovered
  := ensureRecovered_of_settled (ensureRecovered_settled s)

theorem current_ensureRecovered (s : Store) :
  s.ensureRecovered.current = s.current
  := by
  rw [Store.current, ensureRecovered_idem, Store.current]

theorem future_ensureRecovered (s : Store) :
  s.ensureRecovered.files.future = s.files.future
  := by
  rw [Store.ensureRecovered]
  split_ifs with hset
  · rfl
  cases s.journal with
  | absent | unreadable => rfl
  | journal j =>
  rcases recover_cases s j with ⟨h, -⟩ | ⟨h, -⟩
  · dsimp only
    rw [h]
  · dsimp only
    rw [h]
    rfl

theorem abort_histories (s : Store) (j : EvolutionTransactionJournal) :
  (s.abort j).files.histories =
    Function.update s.files.histories j.record.1.param.namespace j.historyBefore
  := rfl

theorem current_eq_projectContext {files : State} (hfut : files.future .context = false) :
  files.current = projectContext (files.histories .context)
  := by
  rw [State.current, hfut]
  rfl

theorem projectContext_concat (history : List DecodedEvolutionRecord)
    (record : DecodedEvolutionRecord) :
  projectContext (history ++ [record]) = projectRecord (projectContext history) record
  := by
  rw [projectContext, foldl_append]
  rfl

theorem Undone.ensureRecovered_eq {j : EvolutionTransactionJournal} (h : Undone s j) :
  s.ensureRecovered = s.abort j
  := by
  have hstate : ¬j.state = .recoveryRequired ∧ ¬j.state = .bothDurable := by
    rcases h.state with hstate | hstate
    all_goals simp [hstate]
  have haudit : j.auditBefore <+: s.files.audit ∧
      s.files.audit.drop j.auditBefore.length <+: [j.record] := by
    rcases h.audit with haudit | haudit
    all_goals
      rw [haudit]
      simp
  rw [Store.ensureRecovered, h.unseen.1, h.unseen.2, if_neg (by simp), h.journal]
  dsimp only
  rw [Store.recover, h.context, h.history]
  simp [hstate, haudit]

/-- What is more than a beginning, if at most one record is. -/
theorem eq_or_eq_concat {front whole : List DecodedEvolutionRecord}
    {record : DecodedEvolutionRecord} (hfront : front <+: whole)
    (hextra : whole.drop front.length <+: [record]) :
  whole = front ∨ whole = front ++ [record]
  := by
  obtain ⟨rest, rfl⟩ := hfront
  rw [drop_left] at hextra
  cases rest with
  | nil => exact Or.inl (append_nil front)
  | cons r rest =>
    right
    rw [cons_prefix_cons, prefix_nil] at hextra
    rw [hextra.1, hextra.2]

/-- The values that have been read are those persisted, unless a record of them is taken back. -/
theorem current_eq_iff (hfut : s.files.future .context = false) :
  s.current = s.files.current ↔ ¬∃ j, Undone s j
  := by
  constructor
  · rintro hcur ⟨j, h⟩
    have habort : (s.abort j).files.future .context = false := hfut
    apply h.changes
    rw [Store.current, h.ensureRecovered_eq, current_eq_projectContext hfut,
      current_eq_projectContext habort, h.history, projectContext_concat] at hcur
    rw [← hcur, abort_histories, h.context, update_self]
  intro hundone
  rw [Store.current, Store.ensureRecovered]
  split_ifs with hset
  · rfl
  rw [Bool.or_eq_true, not_or, Bool.not_eq_true, Bool.not_eq_true] at hset
  cases hjour : s.journal with
  | absent | unreadable => rfl
  | journal j =>
  dsimp only
  rcases recover_cases s j with ⟨h, -⟩ | ⟨h, hstate, hhist, haudit, hextra, haextra⟩
  · rw [h]
  have habort : (s.abort j).files.future .context = false := hfut
  rw [h, current_eq_projectContext hfut, current_eq_projectContext habort, abort_histories]
  by_cases hctx : j.record.1.param.namespace = .context
  · rw [hctx] at hhist hextra ⊢
    rw [update_self]
    rcases eq_or_eq_concat hhist hextra with hsame | hmore
    · rw [hsame]
    by_contra hne
    apply hundone
    use j
    rw [hmore, projectContext_concat] at hne
    exact {
      unseen := hset
      journal := hjour
      state := hstate
      context := hctx
      history := hmore
      audit := eq_or_eq_concat haudit haextra
      changes := Ne.symm hne }
  · rw [update_of_ne (Ne.symm hctx)]

/-! ### One record of the rollback -/

theorem sanitize_reason :
  sanitize "manual rollback" = "manual rollback"
  := by
  apply sanitize_eq_self
  decide +kernel

theorem clean_rollbackRecord (projected target : Snapshot) (p : ContextTunableParam) (time : ℤ) :
  clean sanitize (rollbackRecord projected target p time) = rollbackRecord projected target p time
  := by
  rw [clean, rollbackRecord]
  dsimp only
  rw [sanitize_reason]

variable {p : ContextTunableParam}

theorem decodesValue_of_value {value : ℚ} (h : isContextTunableValue p value) :
  decodesValue (.context p) value
  := by
  rw [decodesValue, Bool.and_eq_true, decide_eq_true_eq]
  constructor
  · rw [isContextTunableValue, Bool.and_eq_true, Bool.and_eq_true, decide_eq_true_eq,
      decide_eq_true_eq] at h
    obtain ⟨⟨hmin, hmax⟩, -⟩ := h
    rw [abs_le]
    cases p with
    | compactionThreshold | targetRatio | keepRecent | summaryKeepRecent =>
      constructor <;> norm_num [contextBounds] at hmin hmax ⊢ <;> linarith
  · exact h

/-- The record of a change between valid values is well formed. -/
theorem decodes_rollbackRecord (hproj : Valid projected)
    (htgt : Valid target) (hne : target p ≠ projected p) (time : ℤ) :
  decodes (rollbackRecord projected target p time)
  := by
  have hact : decodesAction .rolledBack (projected p) (target p) := by
    rw [decodesAction, decide_eq_true_eq]
    exact hne.symm
  have hreason : decodesReason "manual rollback" := by decide +kernel
  rw [decodes, rollbackRecord]
  dsimp only
  rw [decodesValue_of_value (hproj.value p), decodesValue_of_value (htgt.value p), hact,
    hreason]
  rfl

/-- The store after a record has been appended. -/
def Store.pushed (s : Store) (record : DecodedEvolutionRecord) : Store :=
  { s with files := s.files.push record, journal := .absent, journalClean := true }

theorem ensureRecovered_pushed (s : Store) (record : DecodedEvolutionRecord) :
  (s.pushed record).ensureRecovered = s.pushed record
  := ensureRecovered_of_settled (Or.inr rfl)

/-- The values after the record of a change, in a store that has been recovered. -/
theorem current_pushed
    {time : ℤ} (h : decodes (rollbackRecord projected target p time))
    (href : s.ensureRecovered.files.refusal (rollbackRecord projected target p time) = none) :
  (s.ensureRecovered.pushed ⟨rollbackRecord projected target p time, h⟩).current =
    Function.update s.current p (target p)
  := by
  rw [Store.current, ensureRecovered_pushed]
  have hpush := @current_push s.ensureRecovered.files ⟨_, h⟩ p rfl href
  exact hpush

/-- What comes of appending the record of a change between valid values. -/
theorem append_cases (s : Store) (hproj : Valid projected)
    (htgt : Valid target) (hne : target p ≠ projected p) (time : ℤ) :
  let record := rollbackRecord projected target p time
  let recovered := s.ensureRecovered
  (recovered.recoveryRequired ∧ s.append record = (recovered, some .recoveryRequired)) ∨
    (recovered.recoveryRequired = false ∧ recovered.files.refusal record = none ∧
      ∃ h, s.append record = (recovered.pushed ⟨record, h⟩, none)) ∨
    (recovered.recoveryRequired = false ∧ ∃ refusal, recovered.files.refusal record = some refusal ∧
        s.append record = (recovered, some (.refused refusal)))
  := by
  intro record recovered
  have hdec : decodes record := decodes_rollbackRecord hproj htgt hne time
  have hclean : clean sanitize record = record := clean_rollbackRecord projected target p time
  cases hreq : recovered.recoveryRequired with
  | true =>
    left
    constructor
    · rfl
    · rw [Store.append]
      exact if_pos hreq
  | false =>
  right
  cases href : recovered.files.refusal record with
  | none =>
    left
    have hok : recovered.files.append sanitize record =
        .ok (recovered.files.push ⟨record, hdec⟩) := by
      rw [append_ok_iff, hclean]
      exact ⟨hdec, href, hdec, rfl⟩
    refine ⟨rfl, rfl, hdec, ?_⟩
    have hreq' : s.ensureRecovered.recoveryRequired = false := hreq
    rw [Store.append, if_neg (by simpa using hreq), hok]
    simp only [hreq']
    rw [Store.pushed, hreq]
  | some refusal =>
  right
  have herror : recovered.files.append sanitize record = .error refusal := by
    rw [State.append, if_pos hdec, dif_pos (by rw [hclean]; exact hdec)]
    simp only [hclean, href]
  refine ⟨rfl, refusal, rfl, ?_⟩
  rw [Store.append, if_neg (by simpa using hreq), herror]

theorem leads_rollbackRecord {w : Snapshot} (time : ℤ)
    {more : List EvolutionRecord} (hvalid : Valid (Function.update projected p (target p)))
    (h : Leads (Function.update projected p (target p)) more w) :
  Leads projected (rollbackRecord projected target p time :: more) w
  := Leads.cons rfl rfl hvalid h

/-! ### The loop -/

/-- What the loop comes to, with the records it appends after those appended before. -/
structure Rolled (s : Store) (clock : ℕ → ℤ) (target projected : Snapshot)
    (records : List EvolutionRecord) (o : Outcome) : Prop where
  order : o.failure ≠ some .noSafeOrder
  leads : ∃ more, o.records = records ++ more ∧ Leads projected more o.store.current
  reached : o.failure = none → o.store.current = target
  completes : s.ensureRecovered.recoveryRequired = false → Monotone clock →
    (∀ previous ∈ (s.ensureRecovered.files.histories .context).getLast?,
      previous.1.time ≤ clock records.length) → o.failure = none

/-- One round of the loop. -/
theorem rollbackLoop_round (clock : ℕ → ℤ) (h : Pending target projected pending)
    (hproj : Valid projected) (htgt : Valid target) (hne : pending ≠ []) (s : Store)
    (records : List EvolutionRecord) :
  ∃ p ∈ pending, Valid (Function.update projected p (target p)) ∧
    let record := rollbackRecord projected target p (clock records.length)
    rollbackLoop clock target pending projected s records =
      match s.append record with
      | (s, some failure) => { store := s, records, failure := some failure }
      | (s, none) => rollbackLoop clock target (pending.erase p)
          (Function.update projected p (target p)) s (records ++ [record])
  := by
  obtain ⟨q, hq, hvalid⟩ := exists_safe h hproj htgt hne
  cases hfind : pending.find? fun p =>
      isValidContextTuningSnapshot (Function.update projected p (target p)) with
  | none =>
    rw [List.find?_eq_none] at hfind
    exact absurd hvalid (hfind q hq)
  | some p =>
  have hfound := List.find?_some hfind
  use p, mem_of_find?_eq_some hfind, hfound
  rw [rollbackLoop, if_neg hne]
  dsimp only
  split
  · next hnone => rw [hfind] at hnone; contradiction
  rename_i p' hsome
  rw [hfind, Option.some_inj] at hsome
  subst hsome
  rw [clean_rollbackRecord]

/-- What the loop comes to when the values it starts from are those persisted. -/
theorem rollbackLoop_of_current (clock : ℕ → ℤ) (records : List EvolutionRecord)
    (hpend : Pending target projected pending) (hproj : Valid projected)
    (htgt : Valid target) (hfut : s.files.future .context = false)
    (hcur : s.current = projected) :
  Rolled s clock target projected records (rollbackLoop clock target pending projected s records)
  := by
  induction hn : pending.length generalizing pending projected s records with
  | zero =>
    rw [length_eq_zero_iff] at hn
    subst hn
    have htgt' : projected = target := by
      funext p
      by_contra hp
      exact not_mem_nil ((hpend.mem p).mpr (Ne.symm hp))
    rw [rollbackLoop, if_pos rfl]
    refine ⟨by simp, ⟨[], (append_nil _).symm, ?_⟩, fun _ => ?_, fun _ _ _ => rfl⟩
    · rw [hcur]
      apply Leads.nil
    · rw [hcur, htgt']
  | succ n ih =>
  have hne : pending ≠ [] := ne_nil_of_length_eq_add_one hn
  obtain ⟨p, hp, hvalid, hround⟩ := rollbackLoop_round clock hpend hproj htgt hne s records
  have hdiffers := (hpend.mem p).mp hp
  rw [hround]
  rcases append_cases s hproj htgt hdiffers (clock records.length) with
    ⟨hreq, happ⟩ | ⟨hreq, href, hdec, happ⟩ |
    ⟨hreq, refusal, href, happ⟩
  · rw [happ]
    dsimp only
    refine ⟨by simp, ⟨[], (append_nil _).symm, ?_⟩, by simp, ?_⟩
    · rw [current_ensureRecovered, hcur]
      apply Leads.nil
    · intro hnot
      rw [hreq] at hnot
      contradiction
  · rw [happ]
    dsimp only
    have hfut' : (s.ensureRecovered.pushed ⟨_, hdec⟩).files.future .context = false := by
      rw [← hfut, ← future_ensureRecovered s]
      rfl
    have hcur' := current_pushed hdec href
    rw [hcur] at hcur'
    have hlen : (pending.erase p).length = n := by
      rw [length_erase_of_mem hp, hn]
      rfl
    obtain ⟨horder, ⟨more, hmore, hleads⟩, hreached, hcompl⟩ :=
      ih (records ++ [rollbackRecord projected target p (clock records.length)])
        (hpend.erase p) hvalid hfut' hcur' hlen
    refine ⟨horder, ⟨rollbackRecord projected target p (clock records.length) :: more, ?_, ?_⟩,
      hreached, ?_⟩
    · rw [hmore, append_assoc]
      rfl
    · apply leads_rollbackRecord _ hvalid hleads
    intro _ hmono _
    apply hcompl
    · rw [ensureRecovered_pushed]
      exact hreq
    · exact hmono
    intro previous hprev
    rw [ensureRecovered_pushed] at hprev
    have hlast : previous = ⟨_, hdec⟩ := by
      simpa [Store.pushed, State.push, rollbackRecord, Param.namespace, eq_comm] using hprev
    rw [hlast]
    apply hmono
    simp
  rw [happ]
  dsimp only
  refine ⟨by simp, ⟨[], (append_nil _).symm, ?_⟩, by simp, ?_⟩
  · rw [current_ensureRecovered, hcur]
    apply Leads.nil
  intro _ _ hlast
  rw [refusal_eq_none_iff.mpr] at href
  · contradiction
  refine ⟨?_, ?_, ?_⟩
  · rw [future_ensureRecovered]
    exact hfut
  · rw [State.regresses, Option.any_eq_false]
    intro previous hprev
    have hle := hlast previous hprev
    exact decide_eq_false (not_lt.mpr hle)
  rintro q hq
  cases hq
  have hcur' : s.ensureRecovered.files.current = projected := hcur
  rw [hcur']
  exact ⟨rfl, hvalid⟩

/-- Where the values the loop starts from are not those persisted, it does not reach the target. -/
theorem rollbackLoop_of_current_ne {clock : ℕ → ℤ} (records : List EvolutionRecord)
    (hpend : Pending target projected pending) (hproj : Valid projected)
    (htgt : Valid target) {q : ContextTunableParam} (hq : s.current q ≠ projected q)
    (hdone : (rollbackLoop clock target pending projected s records).failure = none) :
  (rollbackLoop clock target pending projected s records).store.current ≠ target
  := by
  induction hn : pending.length generalizing pending projected s records with
  | zero =>
    rw [length_eq_zero_iff] at hn
    subst hn
    rw [rollbackLoop, if_pos rfl]
    intro hreached
    have hnil : q ∉ ([] : List ContextTunableParam) := not_mem_nil
    apply hnil
    rw [hpend.mem, ← hreached]
    exact hq
  | succ n ih =>
  have hne : pending ≠ [] := ne_nil_of_length_eq_add_one hn
  obtain ⟨p, hp, hvalid, hround⟩ := rollbackLoop_round clock hpend hproj htgt hne s records
  have hdiffers := (hpend.mem p).mp hp
  rw [hround] at hdone ⊢
  rcases append_cases s hproj htgt hdiffers (clock records.length) with
    ⟨-, happ⟩ | ⟨-, href, hdec, happ⟩ | ⟨-, refusal, -, happ⟩
  · rw [happ] at hdone
    contradiction
  · rw [happ] at hdone ⊢
    have hcur' := current_pushed hdec href
    obtain ⟨-, -, hctx⟩ := refusal_eq_none_iff.mp href
    have hpre : projected p = s.current p := (hctx p rfl).1
    have hpq : q ≠ p := by
      rintro rfl
      exact hq hpre.symm
    apply ih
    · apply hpend.erase
    · exact hvalid
    · rw [hcur', update_of_ne hpq, update_of_ne hpq]
      exact hq
    · exact hdone
    · rw [length_erase_of_mem hp, hn]
      rfl
  · rw [happ] at hdone
    contradiction

/-! ### When the target is reached -/

theorem exists_punctual (s : Store) :
  ∃ clock, Punctual s clock
  := by
  cases hlast : (s.ensureRecovered.files.histories .context).getLast? with
  | none =>
    use fun _ => 0, monotone_const
    rw [hlast]
    nofun
  | some last =>
  use fun _ => last.1.time, monotone_const
  rw [hlast]
  rintro previous ⟨⟩
  rfl

/-- The rollback to a target reaches it exactly where no record that has been read is taken back. -/
theorem rollbackTo_reaches_iff (hfut : s.files.future .context = false)
    (htgt : Valid target) :
  (∀ clock, Reaches s clock target (s.rollbackTo clock target)) ↔ ¬∃ j, Undone s j
  := by
  constructor
  · rintro h ⟨j, hundone⟩
    have hne : s.current ≠ s.files.current := by
      intro hcur
      apply (current_eq_iff hfut).mp hcur
      use j
    obtain ⟨q, hq⟩ := ne_iff.mp hne
    have hreq : s.ensureRecovered.recoveryRequired = false := by
      rw [hundone.ensureRecovered_eq]
      exact hundone.unseen.1
    obtain ⟨clock, hpunctual⟩ := exists_punctual s
    have hdone := (h clock).completes hreq hpunctual
    apply rollbackLoop_of_current_ne [] (pending_pendingParams target s.files.current)
      (current_valid s.files) htgt hq hdone
    apply (h clock).reached hdone
  intro hundone clock
  have hcur := (current_eq_iff hfut).mpr hundone
  obtain ⟨horder, ⟨more, hmore, hleads⟩, hreached, hcompl⟩ :=
    rollbackLoop_of_current clock []
      (pending_pendingParams target s.files.current) (current_valid s.files) htgt hfut
      hcur
  constructor
  · exact horder
  · rw [nil_append] at hmore
    rw [Store.rollbackTo, hmore]
    exact hleads
  · exact hreached
  · intro hreq hpunctual
    apply hcompl hreq hpunctual.1 hpunctual.2

/-- The rollback reaches every valid target, and so that of every time, exactly where no record that
has been read is taken back. -/
theorem reaches_iff {s : Store} (hfut : s.files.future .context = false) :
  (∀ target, Valid target →
    ((∀ clock, Reaches s clock target (s.rollbackTo clock target)) ↔ ¬∃ j, Undone s j)) ∧
    ∀ time, ((∀ clock, Reaches s clock (s.target time) (s.rollback clock time)) ↔ ¬∃ j, Undone s j)
  := by
  constructor
  · intro target htgt
    apply rollbackTo_reaches_iff hfut htgt
  intro time
  have htgt : Valid (s.target time) := projectContext_valid _
  rw [← rollbackTo_reaches_iff hfut htgt]
  simp only [Store.rollback, hfut, Bool.false_eq_true, if_false]

/-! ### A store with an append that was interrupted -/

/-- The record of a change that the program makes. -/
def adjusted (p : ContextTunableParam) (before after : ℚ) (time : ℤ) : EvolutionRecord where
  param := .context p
  before
  after
  time
  reason := "quality"
  signal := []
  action := .adjusted

def ratioUp : DecodedEvolutionRecord :=
  ⟨adjusted .targetRatio (60 / 100) (65 / 100) 1, by decide +kernel⟩

def keepUp : DecodedEvolutionRecord :=
  ⟨adjusted .keepRecent 20 22 2, by decide +kernel⟩

def ratioDown : DecodedEvolutionRecord :=
  ⟨adjusted .targetRatio (65 / 100) (60 / 100) 3, by decide +kernel⟩

/-- The append of `ratioDown` was interrupted after it was written to the history. -/
def interruptedJournal : EvolutionTransactionJournal where
  state := .namespaceDurable
  record := ratioDown
  historyBefore := [ratioUp, keepUp]
  auditBefore := [ratioUp, keepUp]

def interrupted : Store where
  files :=
    { histories := fun n => if n = .context then [ratioUp, keepUp, ratioDown] else []
      audit := [ratioUp, keepUp]
      future := fun _ => false }
  journal := .journal interruptedJournal
  journalClean := false
  recoveryRequired := false

/-- The parameter that is rolled back is not the one whose record is taken back. -/
theorem not_reaches :
  ¬∀ (s : Store) (clock : ℕ → ℤ) (time : Option ℤ), s.files.future .context = false →
    Reaches s clock (s.target time) (s.rollback clock time)
  := by
  intro h
  have hdone : (interrupted.rollback (fun _ => 4) (some 0)).failure = none := by decide +kernel
  have hratio :
      (interrupted.rollback (fun _ => 4) (some 0)).store.current .targetRatio = 65 / 100 := by
    decide +kernel
  have htgt : interrupted.target (some 0) .targetRatio = 60 / 100 := by decide +kernel
  have hreached := (h interrupted (fun _ => 4) (some 0) rfl).reached hdone
  rw [hreached, htgt] at hratio
  norm_num at hratio

theorem reaches_iff_example :
  interrupted.files.future .context = false ∧
    ((∀ clock, Reaches interrupted clock (interrupted.target (some 0))
      (interrupted.rollback clock (some 0))) ↔ ¬∃ j, Undone interrupted j)
  := by
  have hfut : interrupted.files.future .context = false := rfl
  exact ⟨hfut, (reaches_iff hfut).2 (some 0)⟩

end EvolutionStore

end Storage
