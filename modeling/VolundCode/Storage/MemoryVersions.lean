import VolundCode.Storage.MemoryService

/-!
# Versions of memory records

The time of the last update is the version of a record: a caller passes the one it has seen, and
its update is rejected if the record has another by then. An update, a move and a deletion take a
time after that of the record, whatever the clock says. A record that is created takes the time of
the clock, also where a tombstone or a purged record had a later one, so that a version can come
again. The versions of all ids increase exactly in the runs in which the clock is later then
(`increasing_iff`).
-/

namespace Storage

open Run List

/-! ### Versions -/

/-- Of two records that were stored with one id, the later has the later time. -/
def Increasing (env : ServiceExternals) (history : List MemoryRecord) : Prop :=
  history.Pairwise fun q r => q.id = r.id → env.earlier q.updatedAt r.updatedAt

/-- The clock is later than all times of the records with the id. -/
def laterThan (env : ServiceExternals) (history : List MemoryRecord) (id : String) (now : ℤ) :
    Bool :=
  history.all fun q =>
    decide (q.id ≠ id) || (env.dateParse q.updatedAt).any fun t => decide (t < now)

/-- A record that has been created is saved only if the clock was later than all times that its id
has had. -/
def onTime (env : ServiceExternals) (s : MemoryService) : ServiceAction → Bool
  | .save true =>
    match s.running with
    | some running =>
      match running.job.mutation, running.change with
      | .create input, .write _ => laterThan env s.history input.id running.now
      | _, _ => true
    | none => true
  | _ => true

/-- An update that expects the version of a record it has seen succeeds only if the record is still
the same. -/
def Optimistic (env : ServiceExternals) (s : MemoryService) : Prop :=
  ∀ verdict now scope id patch version change,
    evaluate env s.stored verdict now (.update scope id patch (some version)) = .ok change →
    ∀ q ∈ s.history, q.id = id → q.updatedAt = version → s.stored.get id = some q

section Versions

variable {env : ServiceExternals} {s t : MemoryService}

theorem laterThan_iff {history : List MemoryRecord} {id : String} {now : ℤ} :
  laterThan env history id now ↔
    ∀ q ∈ history, q.id = id → env.earlier q.updatedAt (Ecma.toISOString now)
  := by
  rw [laterThan, all_eq_true]
  apply forall_congr'
  intro q
  apply forall_congr'
  intro _
  rw [Bool.or_eq_true, decide_eq_true_eq, Option.any_eq_true, earlier_iff]
  constructor
  · rintro (hne | ⟨t, ht, hlt⟩) hid
    · exact absurd hid hne
    · refine ⟨t, now, ht, dateParse_toISOString _, ?_⟩
      simpa using hlt
  intro h
  by_cases hid : q.id = id
  · right
    obtain ⟨t, n, ht, hn, hlt⟩ := h hid
    rw [dateParse_toISOString] at hn
    cases hn
    use t, ht
    simpa using hlt
  · left
    apply hid

/-- The records of the repository are the last ones of their ids, and the versions increase. -/
structure Versioned (env : ServiceExternals) (s : MemoryService) : Prop where
  stored : ∀ r ∈ s.stored.records, r ∈ s.history
  latest : ∀ r ∈ s.stored.records, ∀ q ∈ s.history, q.id = r.id →
    q = r ∨ env.earlier q.updatedAt r.updatedAt
  increasing : Increasing env s.history

theorem versioned_start (stored : MemoryRecords) :
  Versioned env (.start stored)
  := by
  constructor
  · intro r hr
    apply hr
  · intro r hr q hq hid
    left
    apply stored.eq_of_id hq hr hid
  · apply (pairwise_map.mp stored.nodup).imp
    intro q r hne hid
    exact absurd hid hne

/-- A record that is written has a later time than all records with its id, if it is on time. -/
theorem earlier_of_write {verdict : Except MemoryError Unit} {now : ℤ} {mutation : MemoryMutation}
    {record : MemoryRecord} (h : Versioned env s)
    (hwrite : evaluate env s.stored verdict now mutation = .ok (.write record))
    (htime : ∀ input, mutation = .create input → laterThan env s.history input.id now) :
  ∀ q ∈ s.history, q.id = record.id → env.earlier q.updatedAt record.updatedAt
  := by
  intro q hq hid
  rcases written_of_evaluate hwrite with ⟨input, hmade, hinput, hclock⟩ |
    ⟨current, hcur, hcurId, hnext⟩
  · rw [hclock]
    apply laterThan_iff.mp (htime input hmade) q hq
    rw [hid, hinput]
  have hlast : env.earlier current.updatedAt record.updatedAt := earlier_nextTimestamp hnext
  rcases h.latest current hcur q hq (hid.trans hcurId.symm) with rfl | hearly
  · apply hlast
  · apply earlier_trans hearly hlast

/-- A change that has been saved leaves the versions increasing if what it writes is later. -/
theorem Versioned.apply (h : Versioned env s) {change : Change}
    (hlater : ∀ record ∈ change.written, ∀ q ∈ s.history, q.id = record.id →
      env.earlier q.updatedAt record.updatedAt)
    (hstor : t.stored = change.apply s.stored) (hhist : t.history = s.history ++ change.written) :
  Versioned env t
  := by
  cases change with
  | keep =>
    have hsame : t.history = s.history := by rw [hhist]; apply append_nil
    constructor
    · rw [hstor, hsame]
      apply h.stored
    · rw [hstor, hsame]
      apply h.latest
    · rw [hsame]
      apply h.increasing
  | purge ids =>
    have hsame : t.history = s.history := by rw [hhist]; apply append_nil
    constructor
    · rw [hstor, hsame]
      intro r hr
      apply h.stored r (MemoryRecords.mem_remove.mp hr).1
    · rw [hstor, hsame]
      intro r hr
      apply h.latest r (MemoryRecords.mem_remove.mp hr).1
    · rw [hsame]
      apply h.increasing
  | write record =>
  have hnew := hlater record mem_cons_self
  constructor
  · rw [hstor, hhist]
    intro r hr
    rcases MemoryRecords.mem_set.mp hr with rfl | ⟨hold, -⟩
    · simp [Change.written]
    · apply mem_append_left _ (h.stored r hold)
  · rw [hstor, hhist]
    intro r hr q hq hid
    rcases mem_append.mp hq with hpast | hwrote
    · rcases MemoryRecords.mem_set.mp hr with rfl | ⟨hold, -⟩
      · right
        apply hnew q hpast hid
      · apply h.latest r hold q hpast hid
    obtain rfl := mem_singleton.mp hwrote
    rcases MemoryRecords.mem_set.mp hr with rfl | ⟨-, hne⟩
    · left
      rfl
    · exact absurd hid.symm hne
  rw [hhist]
  apply pairwise_append.mpr
  refine ⟨h.increasing, pairwise_singleton _ _, ?_⟩
  intro q hq r hr
  obtain rfl := mem_singleton.mp hr
  apply hnew q hq

/-- A step that is not a save leaves what is stored and the history alone. -/
theorem serviceStep_stored {a : ServiceAction} (hstep : serviceStep env s a = some t) :
  t.stored = s.stored ∧ t.history = s.history ∨
    a = .save true ∧ ∃ running, s.running = some running ∧ t = s.save running true
  := by
  cases a with
  | call mutation =>
    left
    cases hstep
    use rfl
  | attach transition now =>
    left
    cases hstep
    unfold MemoryService.attach
    split
    all_goals use rfl
  | submit index =>
    left
    obtain ⟨job, _, rfl⟩ := Option.map_eq_some_iff.mp hstep
    use rfl
  | begin verdict now =>
    left
    unfold serviceStep at hstep
    dsimp only at hstep
    split at hstep
    · cases hstep
      unfold MemoryService.begin
      split
      all_goals use rfl
    · cases hstep
  | save succeeds =>
  obtain ⟨running, hruns, rfl⟩ := Option.map_eq_some_iff.mp hstep
  cases succeeds with
  | false =>
    left
    use rfl
    rfl
  | true =>
    right
    use rfl, running, hruns

theorem Versioned.step {a : ServiceAction} (h : Versioned env s) (hdec : Decided env s)
    (ha : onTime env s a) (hstep : serviceStep env s a = some t) :
  Versioned env t
  := by
  rcases serviceStep_stored hstep with ⟨hstor, hhist⟩ | ⟨rfl, running, hruns, rfl⟩
  · constructor
    · rw [hstor, hhist]
      apply h.stored
    · rw [hstor, hhist]
      apply h.latest
    · rw [hhist]
      apply h.increasing
  obtain ⟨hrecs, verdict, heval⟩ := hdec.running running hruns
  apply h.apply _ hrecs rfl
  intro record hrec
  cases hchg : running.change with
  | keep | purge ids =>
    rw [hchg] at hrec
    cases hrec
  | write written =>
  rw [hchg] at hrec heval
  obtain rfl := mem_singleton.mp hrec
  apply earlier_of_write h heval
  intro input hinput
  rw [onTime, hruns] at ha
  dsimp only at ha
  rw [hinput, hchg] at ha
  apply ha

/-- In a run whose creations are on time, the versions of all ids increase. -/
theorem versioned_of_onTime {stored : MemoryRecords} {actions : List ServiceAction}
    (hok : Guarded (serviceStep env) (fun s a => onTime env s a) (.start stored) actions)
    (hrun : run (serviceStep env) (.start stored) actions = some s) :
  Versioned env s
  := by
  have hinv : Decided env s ∧ Versioned env s := by
    apply hok.invariant (I := fun s => Decided env s ∧ Versioned env s) _ _ hrun
    · rintro s a t ⟨hdec, hversioned⟩ ha hstep
      use hdec.step hstep
      apply hversioned.step hdec ha hstep
    · use decided_start env stored
      apply versioned_start
  apply hinv.2

/-- What has been stored stays in the history. -/
theorem history_grows {actions : List ServiceAction}
    (hrun : run (serviceStep env) s actions = some t) :
  s.history <+: t.history
  := by
  apply run_invariant (I := fun t => s.history <+: t.history) _ _ hrun
  · intro u a v hpre hstep
    apply hpre.trans
    rcases serviceStep_stored hstep with ⟨-, hhist⟩ | ⟨-, running, -, rfl⟩
    · rw [hhist]
    · apply prefix_append
  · apply prefix_refl

/-- What a create has saved was on time if the versions increase up to the end of a run. -/
theorem laterThan_of_increasing {running : Running} {input : NewMemoryRecord}
    {written : MemoryRecord} {rest : List ServiceAction} (hdec : Decided env s)
    (hruns : s.running = some running) (hinput : running.job.mutation = .create input)
    (hwrote : running.change = .write written)
    (hrest : run (serviceStep env) (s.save running true) rest = some t)
    (h : Increasing env t.history) :
  laterThan env s.history input.id running.now
  := by
  obtain ⟨-, verdict, heval⟩ := hdec.running running hruns
  rw [hinput, hwrote] at heval
  obtain ⟨hkeep, -⟩ | ⟨-, hmade⟩ := evaluateCreate_eq_ok heval
  · cases hkeep
  obtain ⟨tags, -, hrec⟩ := createRecord_eq_ok hmade
  have hsame := Change.write.inj hrec
  have hid : written.id = input.id := congrArg MemoryRecord.id hsame
  have htime : written.updatedAt = Ecma.toISOString running.now :=
    congrArg MemoryRecord.updatedAt hsame
  have hsaved : (s.save running true).history = s.history ++ [written] := by
    simp [MemoryService.save, hwrote, Change.written]
  have hpast : Increasing env (s.history ++ [written]) := by
    rw [← hsaved]
    apply h.sublist (history_grows hrest).sublist
  apply laterThan_iff.mpr
  intro q hq hqid
  rw [← htime]
  apply (pairwise_append.mp hpast).2.2 q hq written mem_cons_self
  rw [hqid, hid]

/-- Where the versions increase up to the end of a run, its creations were on time. -/
theorem onTime_of_increasing {stored : MemoryRecords} {actions : List ServiceAction}
    (hrun : run (serviceStep env) (.start stored) actions = some s) (h : Increasing env s.history) :
  Guarded (serviceStep env) (fun s a => onTime env s a) (.start stored) actions
  := by
  apply guarded_iff.mpr
  rintro past a rest u rfl hpast
  have hdec : Decided env u :=
    run_invariant (fun _ _ _ h hstep => Decided.step h hstep) (decided_start env stored) hpast
  rw [run_append, hpast, Option.bind_some] at hrun
  obtain ⟨v, hstep, hrest⟩ := run_cons_eq_some.mp hrun
  unfold onTime
  split
  · split
    · rename_i running hruns
      split
      · rename_i input written hinput hwrote
        obtain ⟨running', hruns', rfl⟩ := Option.map_eq_some_iff.mp hstep
        obtain rfl := Option.some.inj (hruns.symm.trans hruns')
        apply laterThan_of_increasing hdec hruns hinput hwrote hrest h
      · rfl
    · rfl
  · rfl

/-- An update that expects a version finds the record with it, if the versions have increased. -/
theorem Versioned.optimistic (h : Versioned env s) :
  Optimistic env s
  := by
  intro verdict now scope id patch version change heval q hq hid hver
  obtain ⟨current, _, _, hget, -, hexp, -⟩ := evaluateUpdate_eq_ok heval
  obtain ⟨hcur, hcurId⟩ := MemoryRecords.get_eq_some.mp hget
  rcases h.latest current hcur q hq (hid.trans hcurId.symm) with rfl | hearly
  · apply hget
  rw [hver] at hearly
  rcases hexp version rfl with hempty | hsame
  · obtain ⟨a, _, ha, -⟩ := earlier_iff.mp hearly
    rw [hempty] at ha
    cases ha
  · rw [← hsame, not_earlier_self] at hearly
    cases hearly

/-- The times that the records of an id take increase over a whole run exactly if every record that
is created is created at a clock later than all times its id has had. Then an update that expects
the version of a record succeeds only if it is still there. -/
theorem increasing_iff {stored : MemoryRecords} {actions : List ServiceAction}
    (hrun : run (serviceStep env) (.start stored) actions = some s) :
  (Increasing env s.history ↔
      Guarded (serviceStep env) (fun s a => onTime env s a) (.start stored) actions) ∧
    (Increasing env s.history → Optimistic env s)
  := by
  constructor
  · constructor
    · apply onTime_of_increasing hrun
    · intro hok
      apply (versioned_of_onTime hok hrun).increasing
  · intro h
    apply (versioned_of_onTime (onTime_of_increasing hrun h) hrun).optimistic

end Versions

/-! ### A record that is created again -/

/-- An environment for examples. -/
def sampleService : ServiceExternals where
  checks :=
    { detectSecret := fun _ => false
      isDate := fun _ => true }
  legacyDate := fun _ => none
  canAccess := hierarchicalAccess

/-- A repository without records. -/
def noRecords : MemoryRecords where
  records := []
  nodup := List.nodup_nil

/-- A scope for examples. -/
def sampleScope : MemoryRecordScope :=
  .workspace "home"

/-- A record of the user to be created. -/
def sampleInput (content : String) : NewMemoryRecord where
  id := "note"
  scope := sampleScope
  content := content
  provenance := { source := .user, actorId := none, sourceId := none, importedFrom := none }
  tags := none
  pinned := none
  attachments := none

/-- A mutation that is called, decided at a clock and saved. -/
def performed (mutation : MemoryMutation) (now : ℤ) : List ServiceAction :=
  [.call mutation, .begin (.ok ()) now, .save true]

/-- A record is created, deleted and created again, at a clock that shows these times. -/
def createdTwice (first second : ℤ) : List ServiceAction :=
  performed (.create (sampleInput "first")) first ++
    performed (.delete sampleScope "note" none) first ++
    performed (.create (sampleInput "second")) second

instance (env : ServiceExternals) (history : List MemoryRecord) :
    Decidable (Increasing env history) :=
  inferInstanceAs (Decidable (List.Pairwise _ _))

theorem increasing_iff_createdTwice :
  ∃ s, run (serviceStep sampleService) (.start noRecords) (createdTwice 1000 2000) = some s ∧
    Increasing sampleService s.history ∧ Optimistic sampleService s
  := by
  have hreach : (run (serviceStep sampleService) (.start noRecords)
      (createdTwice 1000 2000)).isSome := by decide +kernel
  have hok : Guarded (serviceStep sampleService) (fun s a => onTime sampleService s a)
      (.start noRecords) (createdTwice 1000 2000) := by decide +kernel
  obtain ⟨s, hrun⟩ := Option.isSome_iff_exists.mp hreach
  obtain ⟨hincreasing, hoptimistic⟩ := increasing_iff hrun
  use s, hrun, hincreasing.mpr hok
  apply hoptimistic (hincreasing.mpr hok)

/-- The clock goes back before the record is created again: it takes the version that the first
record had, and an update that expects the first record changes the second. -/
theorem not_increasing :
  ∃ s, run (serviceStep sampleService) (.start noRecords) (createdTwice 1000 1000) = some s ∧
    ¬ Increasing sampleService s.history ∧ ¬ Optimistic sampleService s
  := by
  have hreach : (run (serviceStep sampleService) (.start noRecords)
      (createdTwice 1000 1000)).any (fun s =>
        decide (¬ Increasing sampleService s.history) &&
          (s.history.any fun q =>
            decide (q.id = "note" ∧ q.updatedAt = "1970-01-01T00:00:01.000Z" ∧
              s.stored.get "note" ≠ some q)) &&
          (evaluate sampleService s.stored (.ok ()) 3000 (.update sampleScope "note"
            { MemoryPatch.none with content := some "third" }
            (some "1970-01-01T00:00:01.000Z"))).toOption.isSome) := by
    decide +kernel
  obtain ⟨s, hrun, hs⟩ := Option.any_eq_true _ _ |>.mp hreach
  simp only [Bool.and_eq_true, decide_eq_true_eq, any_eq_true] at hs
  obtain ⟨⟨hnot, q, hq, hid, hver, hother⟩, hsucc⟩ := hs
  use s, hrun, hnot
  intro hoptimistic
  cases heval : evaluate sampleService s.stored (.ok ()) 3000 (.update sampleScope "note"
      { MemoryPatch.none with content := some "third" } (some "1970-01-01T00:00:01.000Z")) with
  | error e =>
    rw [heval] at hsucc
    cases hsucc
  | ok change =>
    apply hother
    apply hoptimistic _ _ _ _ _ _ _ heval q hq hid hver

end Storage
