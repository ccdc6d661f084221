import VolundCode.Subagent.Dispatcher

/-!
# The accounts of the subagent dispatcher

A journal of the events of the dispatcher is an account of its runs. What it tells of one dispatch
follows from the phase of the dispatch (`Phase.Tells`), and replaying it gives the runs of the
registry one by one, with the statuses that the journal reports for them (`Recorded`).

A run whose budget was exhausted is reported as completed, so that a registry rebuilt from the
journal does not have all statuses of the live one, and of more runs than it holds it has those
that started last by the clock (`not_accounted`). Apart from that it has the same runs with the
same statuses, and every event that tells of a dispatch is followed by one that tells of its end,
once, where no event fails (`accounted_of_delivering`).
-/

namespace Subagent

open Core ProviderKit Run List

/-! ### What the journal tells -/

inductive EventKind where
  | dispatched
  | settled
  deriving DecidableEq, Repr

def EventPayload.kind : EventPayload → EventKind
  | .dispatched _ => .dispatched
  | .settled _ => .settled

/-- The events about a run. -/
def eventsOf (id : String) (journal : List SubagentJournalEvent) : List SubagentJournalEvent :=
  journal.filter fun event => event.payload.runId = id

/-- What the journal tells of a run, from the first event about it to the last. -/
def tale (id : String) (journal : List SubagentJournalEvent) : List EventKind :=
  (eventsOf id journal).map fun event => event.payload.kind

/-- The times of the events that tell of a dispatch. -/
def dispatchTimes (journal : List SubagentJournalEvent) : List ℤ :=
  (journal.filter fun event => event.payload.kind = .dispatched).map (·.time)

/-- The runs as the journal has them, before those without an end are marked. -/
def replay (journal : List SubagentJournalEvent) : List SubagentRunEntry :=
  journal.foldl (replayEvent []) []

/-- A run and its status. -/
def SubagentRunEntry.row (entry : SubagentRunEntry) : String × SubagentRunStatus :=
  (entry.sessionId, entry.status)

/-- The status that the journal tells for one in the registry. An exhausted budget is a matter of
the detail. -/
def SubagentRunStatus.told : SubagentRunStatus → SubagentRunStatus
  | .partially => .completed
  | status => status

/-- The status of a run without an end. -/
def SubagentRunStatus.interrupt : SubagentRunStatus → SubagentRunStatus
  | .running => .interrupted
  | status => status

theorem tale_append (id : String) (journal events : List SubagentJournalEvent) :
  tale id (journal ++ events) = tale id journal ++ tale id events
  := by
  rw [tale, eventsOf, filter_append, map_append]
  rfl

/-- The tale of a run is not changed by the events about another. -/
theorem tale_of_other {id : String} {events : List SubagentJournalEvent}
    (h : ∀ event ∈ events, event.payload.runId ≠ id) :
  tale id events = []
  := by
  have hnone : eventsOf id events = [] := by
    apply filter_eq_nil_iff.mpr
    intro event hevent
    rw [decide_eq_true_eq]
    apply h event hevent
  rw [tale, hnone, map_nil]

/-- The tale of a run has all events about it alone. -/
theorem tale_of_same {id : String} {events : List SubagentJournalEvent}
    (h : ∀ event ∈ events, event.payload.runId = id) :
  tale id events = events.map fun event => event.payload.kind
  := by
  have hall : eventsOf id events = events := by
    apply filter_eq_self.mpr
    intro event hevent
    rw [decide_eq_true_eq]
    apply h event hevent
  rw [tale, hall]

/-! ### Replaying -/

theorem replay_append_one (journal : List SubagentJournalEvent) (event : SubagentJournalEvent) :
  replay (journal ++ [event]) = replayEvent [] (replay journal) event
  := by
  rw [replay, foldl_append]
  rfl

@[simp]
theorem sessionId_settleEntry (time : ℤ) (p : SettledPayload) (entry : SubagentRunEntry) :
  (settleEntry time p entry).sessionId = entry.sessionId
  := rfl

@[simp]
theorem startedAt_settleEntry (time : ℤ) (p : SettledPayload) (entry : SubagentRunEntry) :
  (settleEntry time p entry).startedAt = entry.startedAt
  := rfl

/-- An event that settles a run leaves what the entries have beside what they end with. -/
theorem map_settled {β : Type} (f : SubagentRunEntry → β) (time : ℤ) (p : SettledPayload)
    (hf : ∀ entry, f (settleEntry time p entry) = f entry) (replayed : List SubagentRunEntry) :
  (replayed.map fun entry =>
      if entry.sessionId = p.sessionId then settleEntry time p entry else entry).map f =
    replayed.map f
  := by
  rw [map_map]
  apply map_congr_left
  intro entry _
  rw [Function.comp_apply]
  split_ifs
  · apply hf
  · rfl

/-- The runs that are replayed start when the events tell, in their order. -/
theorem startedAt_replay (journal : List SubagentJournalEvent) :
  ((replay journal).map (·.startedAt)).Sublist (dispatchTimes journal)
  := by
  induction journal using List.reverseRecOn with
  | nil => exact Sublist.slnil
  | append_singleton journal event ih =>
  rw [replay_append_one, dispatchTimes, filter_append, map_append]
  cases hload : event.payload with
  | dispatched p =>
    have htimes : ([event].filter fun event => event.payload.kind = .dispatched) = [event] := by
      apply filter_eq_self.mpr
      intro other hother
      rw [mem_singleton.mp hother, hload]
      rfl
    rw [htimes, replayEvent, hload]
    dsimp only
    split_ifs
    · apply ih.trans (sublist_append_left _ _)
    · apply ih.trans (sublist_append_left _ _)
    · rw [map_append]
      apply ih.append (Sublist.refl _)
  | settled p =>
  rw [replayEvent, hload]
  dsimp only
  split_ifs
  · apply ih.trans (sublist_append_left _ _)
  · rw [map_settled _ _ _ (startedAt_settleEntry _ _)]
    apply ih.trans (sublist_append_left _ _)

/-- Every run that is replayed is in the journal. -/
theorem mem_journal_of_replay {journal : List SubagentJournalEvent} {id : String}
    (h : id ∈ (replay journal).map (·.sessionId)) :
  ∃ event ∈ journal, event.payload.runId = id
  := by
  induction journal using List.reverseRecOn with
  | nil => cases h
  | append_singleton journal event ih =>
  have hold : id ∈ (replay journal).map (·.sessionId) →
      ∃ e ∈ journal ++ [event], e.payload.runId = id := by
    intro hid
    obtain ⟨e, he, hrun⟩ := ih hid
    use e, mem_append_left _ he
  rw [replay_append_one, replayEvent] at h
  cases hload : event.payload with
  | dispatched p =>
    simp only [hload] at h
    split_ifs at h
    · apply hold h
    · apply hold h
    rw [map_append, mem_append] at h
    rcases h with h | h
    · apply hold h
    · use event, mem_append_right _ (mem_singleton_self _)
      rw [hload]
      apply (mem_singleton.mp h).symm
  | settled p =>
  simp only [hload] at h
  split_ifs at h
  · apply hold h
  · rw [map_settled _ _ _ (sessionId_settleEntry _ _)] at h
    apply hold h

/-- An event that tells of a dispatch adds its run, if the journal has not told of it. -/
theorem replayEvent_dispatched {replayed : List SubagentRunEntry} {event : SubagentJournalEvent}
    {p : DispatchedPayload} (hload : event.payload = .dispatched p) (hconf : dispatchedConforms p)
    (hnew : p.sessionId ∉ replayed.map (·.sessionId)) :
  replayEvent [] replayed event = replayed ++ [entryOfDispatched event.time p]
  := by
  rw [replayEvent, hload]
  dsimp only
  rw [hconf, if_neg (by simp), if_neg]
  rintro (h | h)
  · cases h
  · apply hnew h

/-- An event that tells of an end settles its run. -/
theorem replayEvent_settled {replayed : List SubagentRunEntry} {event : SubagentJournalEvent}
    {p : SettledPayload} (hload : event.payload = .settled p) (hconf : settledConforms p) :
  replayEvent [] replayed event = replayed.map fun entry =>
    if entry.sessionId = p.sessionId then settleEntry event.time p entry else entry
  := by
  rw [replayEvent, hload]
  dsimp only
  rw [hconf, if_neg (by simp)]

/-! ### Dispatches and the journal -/

/-- The entry of a dispatch whose run has begun and not ended. -/
def Phase.begun : Phase → Option SubagentRunEntry
  | .announcing _ entry _ => some entry
  | .running _ entry => some entry
  | _ => none

/-- What the journal tells of a dispatch in its phase. A dispatch that ended without its run having
begun is not told. -/
def Phase.Tells : Phase → List EventKind → Prop
  | .creating, tale => tale = []
  | .announcing _ _ delivered, tale => delivered ∧ tale = [.dispatched]
  | .running _ _, tale => tale = [.dispatched]
  | .settling _ _ delivered _ _, tale => delivered ∧ tale = [.dispatched, .settled]
  | .ended, tale => tale = [] ∨ tale = [.dispatched, .settled]

/-- The usage that is told of a run that has returned. -/
def toldUsage (final : SessionState) : Usage where
  input := final.cumulativeUsage.input
  output := final.cumulativeUsage.output
  cacheRead := none
  cacheWrite := none
  costUSD := some final.cumulativeUsage.costUSD

/-- No event of a dispatch fails: each meets its contract, and no listener rejects it. -/
def Delivering (d : SubagentDispatcher) (s : State) : Action → Prop
  | .created i _ now _ => ∀ x ∈ s.dispatches[i]?,
      dispatchedConforms (dispatchedPayload x (beginEntry d x now))
  | .ran _ final _ _ _ => usageConforms (toldUsage final)
  | .announceRejects _ => False
  | .settleRejects _ _ _ _ => False
  | _ => True

instance (d : SubagentDispatcher) (s : State) : ∀ a, Decidable (Delivering d s a)
  | .created i _ now _ =>
    haveI : DecidablePred fun x : Dispatch =>
        dispatchedConforms (dispatchedPayload x (beginEntry d x now)) :=
      fun _ => inferInstanceAs (Decidable (_))
    Option.decidableForallMem (s.dispatches[i]?)
  | .ran _ _ _ _ _ => inferInstanceAs (Decidable (_ = true))
  | .announceRejects _ | .settleRejects _ _ _ _ => isFalse id
  | .dispatch _ _ _ | .factoryThrows _ | .announced _ | .runThrows _ _ _ _ | .settled _
  | .cancel _ | .cancelAllRunning => isTrue True.intro

/-- The journal tells of each dispatch what its phase says, and of no other runs. The runs of the
registry are the newest of those that it tells of, with the statuses that it tells. -/
structure Recorded (d : SubagentDispatcher) (s : State) : Prop where
  ids : ∀ (i : ℕ) (x : Dispatch), s.dispatches[i]? = some x → x.sessionId = d.uuidv7 i
  entries : ∀ (i : ℕ) (x : Dispatch), s.dispatches[i]? = some x → ∀ entry ∈ x.phase.begun,
    entry.sessionId = x.sessionId ∧ entry.sessionId ≠ "" ∧ entry.usage = none
  tells : ∀ (i : ℕ) (x : Dispatch), s.dispatches[i]? = some x → x.phase.Tells (tale x.sessionId s.journal)
  known : ∀ event ∈ s.journal, ∃ (i : ℕ) (x : Dispatch), s.dispatches[i]? = some x ∧
    event.payload.runId = x.sessionId
  rows : ∃ runs, s.runs = keepNewest d.runHistoryLimit runs ∧
    (replay s.journal).map (·.row) = runs.map fun entry => (entry.sessionId, entry.status.told)

theorem Recorded.initial (d : SubagentDispatcher) : Recorded d State.initial where
  ids _ _ h := by cases h
  entries _ _ h := by cases h
  tells _ _ h := by cases h
  known _ h := by cases h
  rows := by
    use []
    exact ⟨drop_nil.symm, rfl⟩

/-- The newest entries of a list in which the entries are changed are the newest entries,
changed. -/
theorem keepNewest_map {β : Type} (f : SubagentRunEntry → β) (limit : ℕ)
    (runs : List SubagentRunEntry) :
  (keepNewest limit runs).map f = (runs.map f).drop (runs.length - limit)
  := by
  rw [keepNewest, map_drop]

theorem keepNewest_of_length_le {limit : ℕ} {runs : List SubagentRunEntry}
    (h : runs.length ≤ limit) :
  keepNewest limit runs = runs
  := by
  rw [keepNewest, Nat.sub_eq_zero_of_le h, drop_zero]

/-- The newest entries after one more are the newest of all. -/
theorem keepNewest_append (limit : ℕ) (runs : List SubagentRunEntry) (entry : SubagentRunEntry) :
  keepNewest limit (keepNewest limit runs ++ [entry]) = keepNewest limit (runs ++ [entry])
  := by
  rw [keepNewest, keepNewest, keepNewest]
  rcases Nat.le_total runs.length limit with hle | hle
  · rw [Nat.sub_eq_zero_of_le hle, drop_zero]
  have hcut : runs.drop (runs.length - limit) ++ [entry] =
      (runs ++ [entry]).drop (runs.length - limit) := by
    rw [drop_append_of_le_length (Nat.sub_le _ _)]
  rw [hcut, drop_drop, length_drop, length_append, length_singleton]
  congr 1
  omega

theorem sessionId_ne_of_dispatchedConforms {p : DispatchedPayload} (h : dispatchedConforms p) :
  p.sessionId ≠ ""
  := by
  rw [dispatchedConforms] at h
  simp only [Bool.and_eq_true, decide_eq_true_eq] at h
  tauto

/-- What is told of a run that ends meets its contract, if the usage of its session does. -/
theorem settledConforms_finishedEntry {cancelled : Bool} {entry : SubagentRunEntry}
    {status : SubagentRunStatus} {final : Option SessionState} {detail : Option String}
    {ctxOut : ℕ} {now later : ℤ} (hid : entry.sessionId ≠ "") (hnone : entry.usage = none)
    (husage : ∀ f ∈ final, usageConforms (toldUsage f)) :
  settledConforms
    (settledPayload (finishedEntry cancelled entry status final detail now) ctxOut later)
  := by
  rw [settledConforms, Bool.and_eq_true]
  constructor
  · apply decide_eq_true hid
  cases final with
  | some f => apply husage f rfl
  | none =>
    have hzero : usageConforms ⟨0, 0, none, none, none⟩ := by decide +kernel
    rw [settledPayload, finishedEntry, hnone]
    apply hzero

/-- A row in which a run gets another status. -/
def settleRow (id : String) (status : SubagentRunStatus) (row : String × SubagentRunStatus) :
    String × SubagentRunStatus :=
  if row.1 = id then (id, status) else row

/-- Settling a run in the replayed entries puts its status in its row. -/
theorem map_row_settleEntry (time : ℤ) (p : SettledPayload) (replayed : List SubagentRunEntry) :
  (replayed.map fun entry =>
      if entry.sessionId = p.sessionId then settleEntry time p entry else entry).map (·.row) =
    (replayed.map (·.row)).map (settleRow p.sessionId p.status.runStatus)
  := by
  rw [map_map, map_map]
  apply map_congr_left
  intro entry _
  change (if entry.sessionId = p.sessionId then settleEntry time p entry else entry).row =
    if entry.sessionId = p.sessionId then (p.sessionId, p.status.runStatus) else entry.row
  split_ifs with hid
  · rw [← hid]
    rfl
  · rfl

/-- Finishing a run in the registry puts its status in its row. -/
theorem map_told_finished {id : String} {finished : SubagentRunEntry}
    (hid : finished.sessionId = id) (runs : List SubagentRunEntry) :
  (runs.map fun entry => if entry.sessionId = id then finished else entry).map
      (fun entry => (entry.sessionId, entry.status.told)) =
    (runs.map fun entry => (entry.sessionId, entry.status.told)).map
      (settleRow id finished.status.told)
  := by
  rw [map_map, map_map]
  apply map_congr_left
  intro entry _
  rw [Function.comp_apply, Function.comp_apply, settleRow]
  split_ifs
  · rw [hid]
  · rfl

/-- A cancelled run is told as cancelled. -/
theorem runStatus_finishedEntry {status : SubagentRunStatus}
    (h : status.settled.runStatus = status.told) (cancelled : Bool) (entry : SubagentRunEntry)
    (final : Option SessionState) (detail : Option String) (now : ℤ) :
  (finishedEntry cancelled entry status final detail now).status.settled.runStatus =
    (finishedEntry cancelled entry status final detail now).status.told
  := by
  cases cancelled with
  | true => rfl
  | false => exact h

section Steps

variable {d : SubagentDispatcher} {s t : State} {i : ℕ} {x : Dispatch}

/-- A dispatch that comes to another phase, with the events that it emits, keeps the record if the
phase says what the journal tells then and the registry has the runs that it tells. -/
theorem Recorded.advance {phase : Phase} {events : List SubagentJournalEvent}
    (hd : Function.Injective d.uuidv7) (hs : Recorded d s) (hx : s.dispatches[i]? = some x)
    (ht : t.dispatches = s.dispatches.set i { x with phase := phase })
    (hjour : t.journal = s.journal ++ events)
    (hevents : ∀ event ∈ events, event.payload.runId = x.sessionId) (hentry : ∀ entry ∈ phase.begun,
      entry.sessionId = x.sessionId ∧ entry.sessionId ≠ "" ∧ entry.usage = none)
    (htells : phase.Tells
      (tale x.sessionId s.journal ++ events.map fun event => event.payload.kind))
    (hrows : ∃ runs, t.runs = keepNewest d.runHistoryLimit runs ∧ (replay t.journal).map (·.row) =
        runs.map fun entry => (entry.sessionId, entry.status.told)) :
  Recorded d t
  := by
  have hlt : i < s.dispatches.length := (List.getElem?_eq_some_iff.mp hx).choose
  have hself : t.dispatches[i]? = some { x with phase := phase } := by
    rw [ht, List.getElem?_set_self hlt]
  have hother : ∀ j, i ≠ j → t.dispatches[j]? = s.dispatches[j]? := by
    intro j hij
    rw [ht, List.getElem?_set_ne hij]
  constructor
  · intro j y hy
    by_cases hij : i = j
    · subst hij
      obtain rfl := Option.some.inj (hself.symm.trans hy)
      apply hs.ids i x hx
    · rw [hother j hij] at hy
      apply hs.ids j y hy
  · intro j y hy
    by_cases hij : i = j
    · subst hij
      obtain rfl := Option.some.inj (hself.symm.trans hy)
      apply hentry
    · rw [hother j hij] at hy
      apply hs.entries j y hy
  · intro j y hy
    rw [hjour, tale_append]
    by_cases hij : i = j
    · subst hij
      obtain rfl := Option.some.inj (hself.symm.trans hy)
      rw [tale_of_same hevents]
      apply htells
    rw [hother j hij] at hy
    have hid : x.sessionId ≠ y.sessionId := by
      rw [hs.ids i x hx, hs.ids j y hy]
      apply hd.ne hij
    have hnone : tale y.sessionId events = [] := by
      apply tale_of_other
      intro event hevent
      rw [hevents event hevent]
      apply hid
    rw [hnone, append_nil]
    apply hs.tells j y hy
  · intro event hevent
    rw [hjour, mem_append] at hevent
    rcases hevent with hevent | hevent
    · obtain ⟨j, y, hy, hrun⟩ := hs.known event hevent
      by_cases hij : i = j
      · subst hij
        obtain rfl := Option.some.inj (hx.symm.trans hy)
        use i, { x with phase := phase }, hself, hrun
      · use j, y
        rw [hother j hij]
        use hy, hrun
    · use i, { x with phase := phase }, hself
      apply hevents event hevent
  · apply hrows

/-- A dispatch that comes to another phase without an event keeps the record. -/
theorem Recorded.advance_silent {phase : Phase}
    (hd : Function.Injective d.uuidv7) (hs : Recorded d s) (hx : s.dispatches[i]? = some x)
    (ht : t.dispatches = s.dispatches.set i { x with phase := phase })
    (hjour : t.journal = s.journal) (hruns : t.runs = s.runs) (hentry : ∀ entry ∈ phase.begun,
      entry.sessionId = x.sessionId ∧ entry.sessionId ≠ "" ∧ entry.usage = none)
    (htells : phase.Tells (tale x.sessionId s.journal)) :
  Recorded d t
  := by
  have hnone : t.journal = s.journal ++ [] := by
    rw [hjour, append_nil]
  apply hs.advance hd hx ht hnone
  · intro event hevent
    cases hevent
  · apply hentry
  · rw [map_nil, append_nil]
    apply htells
  · rw [hjour, hruns]
    apply hs.rows

/-- A run that begins and is told keeps the record. -/
theorem Recorded.announce (hd : Function.Injective d.uuidv7) (hs : Recorded d s)
    (hx : s.dispatches[i]? = some x) (hphase : x.phase = .creating) (runner : ℕ) (now later : ℤ)
    (hconf : dispatchedConforms (dispatchedPayload x (beginEntry d x now))) :
  Recorded d (s.announce d i x runner now later)
  := by
  have htale : tale x.sessionId s.journal = [] := by
    have htells := hs.tells i x hx
    rw [hphase] at htells
    apply htells
  have hnew : x.sessionId ∉ (replay s.journal).map (·.sessionId) := by
    intro hmem
    obtain ⟨event, hevent, hrun⟩ := mem_journal_of_replay hmem
    have hin : event ∈ eventsOf x.sessionId s.journal := by
      apply mem_filter_of_mem hevent
      apply decide_eq_true hrun
    rw [map_eq_nil_iff.mp htale] at hin
    cases hin
  have hjour : (s.announce d i x runner now later).journal = s.journal ++
      [⟨x.parent.state.id, x.parent.turnId, later,
        .dispatched (dispatchedPayload x (beginEntry d x now))⟩] := by
    rw [State.announce, State.goOn, State.emit]
    rw [if_pos (by exact hconf)]
  have hruns : (s.announce d i x runner now later).runs =
      keepNewest d.runHistoryLimit (s.runs ++ [beginEntry d x now]) := by
    rw [State.announce, State.goOn, State.emit]
    rw [if_pos (by exact hconf)]
  apply hs.advance hd hx (dispatches_announce d s i x runner now later) hjour
  · intro event hevent
    rw [mem_singleton.mp hevent]
    rfl
  · intro entry hentry
    cases hentry
    use rfl, sessionId_ne_of_dispatchedConforms hconf
    rfl
  · rw [htale]
    exact ⟨hconf, rfl⟩
  obtain ⟨runs, hkept, hrows⟩ := hs.rows
  use runs ++ [beginEntry d x now]
  constructor
  · rw [hruns, hkept, keepNewest_append]
  · rw [hjour, replay_append_one, replayEvent_dispatched rfl hconf hnew, map_append,
      hrows, map_append]
    rfl

/-- A run that ends and whose end is told keeps the record. -/
theorem Recorded.settle {runner : ℕ} {entry : SubagentRunEntry}
    (hd : Function.Injective d.uuidv7) (hs : Recorded d s) (hx : s.dispatches[i]? = some x)
    (hphase : x.phase = .running runner entry) (caught : Bool) {status : SubagentRunStatus}
    {final : Option SessionState} (detail : Option String) (ctxOut : ℕ) (result : DispatchStatus)
    (now later : ℤ) (hstatus : status.settled.runStatus = status.told)
    (husage : ∀ f ∈ final, usageConforms (toldUsage f)) :
  Recorded d (s.settle i x runner entry caught status final detail ctxOut result now later)
  := by
  obtain ⟨hid, hne, hnone⟩ := hs.entries i x hx entry (by rw [hphase]; rfl)
  have htale : tale x.sessionId s.journal = [.dispatched] := by
    have htells := hs.tells i x hx
    rw [hphase] at htells
    apply htells
  let finished := finishedEntry (s.cancelledRuns.contains entry.sessionId) entry status final
    detail now
  have hconf : settledConforms (settledPayload finished ctxOut later) :=
    settledConforms_finishedEntry hne hnone husage
  have hjour : (s.settle i x runner entry caught status final detail ctxOut result now
      later).journal = s.journal ++ [⟨x.parent.state.id, x.parent.turnId, later,
          .settled (settledPayload finished ctxOut later)⟩] := by
    rw [State.settle, State.goOn, State.emit, if_pos (by exact hconf)]
    rfl
  have hruns : (s.settle i x runner entry caught status final detail ctxOut result now
      later).runs = s.runs.map fun e => if e.sessionId = entry.sessionId then finished else e := by
    rw [State.settle, State.goOn, State.emit, if_pos (by exact hconf)]
    rfl
  have hdispatches : (s.settle i x runner entry caught status final detail ctxOut result now
      later).dispatches = s.dispatches.set i { x with
        phase := .settling runner finished
          (EventPayload.settled (settledPayload finished ctxOut later)).conforms caught result } := by
    rw [State.settle, State.goOn, dispatches_emit]
    rfl
  apply hs.advance hd hx hdispatches hjour
  · intro event hevent
    rw [mem_singleton.mp hevent]
    apply hid
  · intro e he
    cases he
  · rw [htale]
    exact ⟨hconf, rfl⟩
  obtain ⟨runs, hkept, hrows⟩ := hs.rows
  use runs.map fun e => if e.sessionId = entry.sessionId then finished else e
  constructor
  · rw [hruns, hkept, keepNewest_map, keepNewest, length_map]
  have hfinished : finished.sessionId = entry.sessionId := rfl
  rw [hjour, replay_append_one, replayEvent_settled rfl hconf, map_row_settleEntry,
    map_told_finished hfinished, hrows, ← runStatus_finishedEntry hstatus]
  rfl

/-- What a dispatch that goes on does keeps the record. -/
theorem Recorded.resume {a : Action} (hd : Function.Injective d.uuidv7) (hs : Recorded d s)
    (hx : s.dispatches[i]? = some x) (hi : a.index = some i) (hok : Delivering d s a)
    (ht : s.resume d i x a = some t) :
  Recorded d t
  := by
  have htells := hs.tells i x hx
  have hents := hs.entries i x hx
  cases a with
  | created j runner now later =>
    cases hi
    rw [State.resume] at ht
    split at ht
    · rename_i hphase
      cases ht
      apply hs.announce hd hx hphase
      apply hok x hx
    · cases ht
  | factoryThrows j =>
    rw [State.resume] at ht
    split at ht
    · rename_i hphase
      cases ht
      rw [hphase] at htells
      refine hs.advance_silent hd hx rfl rfl rfl ?_ ?_
      · intro entry hentry
        cases hentry
      · left
        apply htells
    · cases ht
  | announced j =>
    rw [State.resume] at ht
    split at ht
    · rename_i runner entry hphase
      cases ht
      rw [hphase] at htells hents
      refine hs.advance_silent hd hx rfl rfl rfl ?_ ?_
      · apply hents
      · apply htells.2
    · cases ht
  | announceRejects j => exact hok.elim
  | ran j final aborted now later =>
    rw [State.resume] at ht
    split at ht
    · rename_i runner entry hphase
      cases ht
      have husage : ∀ f ∈ some final, usageConforms (toldUsage f) := by
        intro f hf
        cases hf
        apply hok
      rw [State.finish]
      split_ifs
      all_goals apply hs.settle hd hx hphase _ _ _ _ _ _ rfl husage
    · cases ht
  | runThrows j cause now later =>
    rw [State.resume] at ht
    split at ht
    · rename_i runner entry hphase
      cases ht
      apply hs.settle hd hx hphase _ _ _ _ _ _ rfl
      intro f hf
      cases hf
    · cases ht
  | settled j =>
    rw [State.resume] at ht
    split at ht
    · rename_i hphase
      cases ht
      rw [hphase] at htells
      refine hs.advance_silent hd hx rfl rfl rfl ?_ ?_
      · intro entry hentry
        cases hentry
      · right
        apply htells.2
    · cases ht
  | settleRejects j cause now later => exact hok.elim
  | dispatch | cancel | cancelAllRunning => cases ht

/-- A dispatch that is called keeps the record. -/
theorem Recorded.dispatch (hd : Function.Injective d.uuidv7) (hs : Recorded d s)
    (parent : DispatchParent) (input : DispatchInput) (aborted : Bool) :
  Recorded d (s.dispatch d parent input aborted)
  := by
  rw [State.dispatch]
  cases d.admission s.activeCount parent input with
  | error e => apply hs
  | ok budget =>
  dsimp only
  split_ifs
  · apply hs
  let x : Dispatch := ⟨parent, input, budget, d.uuidv7 s.dispatches.length, .creating⟩
  have hold : ∀ (j : ℕ) (y : Dispatch), s.dispatches[j]? = some y →
      (s.dispatches ++ [x])[j]? = some y := by
    intro j y hy
    rw [List.getElem?_append_left (List.getElem?_eq_some_iff.mp hy).choose, hy]
  have hcases : ∀ (j : ℕ) (y : Dispatch), (s.dispatches ++ [x])[j]? = some y →
      s.dispatches[j]? = some y ∨ j = s.dispatches.length ∧ y = x := by
    intro j y hy
    rcases Nat.lt_or_ge j s.dispatches.length with hlt | hge
    · left
      rw [← hy, List.getElem?_append_left hlt]
    right
    rw [List.getElem?_append_right hge] at hy
    obtain ⟨hj, rfl⟩ := List.getElem?_eq_some_iff.mp hy
    rw [length_singleton] at hj
    exact ⟨by omega, getElem_singleton _⟩
  have hnew : tale (d.uuidv7 s.dispatches.length) s.journal = [] := by
    apply tale_of_other
    intro event hevent heq
    obtain ⟨j, y, hy, hrun⟩ := hs.known event hevent
    have hlt : j < s.dispatches.length := (List.getElem?_eq_some_iff.mp hy).choose
    rw [hrun, hs.ids j y hy] at heq
    have hj := hd heq
    omega
  constructor
  · intro j y hy
    rcases hcases j y hy with hy | ⟨rfl, rfl⟩
    · apply hs.ids j y hy
    · rfl
  · intro j y hy
    rcases hcases j y hy with hy | ⟨rfl, rfl⟩
    · apply hs.entries j y hy
    · intro entry hentry
      cases hentry
  · intro j y hy
    rcases hcases j y hy with hy | ⟨rfl, rfl⟩
    · apply hs.tells j y hy
    · apply hnew
  · intro event hevent
    obtain ⟨j, y, hy, hrun⟩ := hs.known event hevent
    use j, y, hold j y hy, hrun
  · apply hs.rows

/-- A step in which no event fails keeps the record. -/
theorem Recorded.step {a : Action} (hd : Function.Injective d.uuidv7) (hs : Recorded d s)
    (hok : Delivering d s a) (ht : step d s a = some t) :
  Recorded d t
  := by
  have hresume : ∀ i, a.index = some i →
      (s.dispatches[i]?.bind fun x => s.resume d i x a) = some t → Recorded d t := by
    intro i hi hbind
    obtain ⟨x, hx, hresume⟩ := Option.bind_eq_some_iff.mp hbind
    apply hs.resume hd hx hi hok hresume
  have hcancel : ∀ (u : State) (id : String), Recorded d u → Recorded d (u.cancel id) := by
    intro u id hu
    rw [State.cancel]
    split
    · apply hu
    · exact ⟨hu.ids, hu.entries, hu.tells, hu.known, hu.rows⟩
  cases a with
  | dispatch parent input aborted =>
    cases ht
    apply hs.dispatch hd
  | cancel sessionId =>
    cases ht
    apply hcancel s sessionId hs
  | cancelAllRunning =>
    cases ht
    apply List.foldlRecOn (motive := fun t => Recorded d t) _ _ hs
    intro u hu id _
    apply hcancel u id hu
  | created i | ran i | runThrows i | settleRejects i
  | factoryThrows i | announced i | announceRejects i | settled i => exact hresume i rfl ht

end Steps

/-! ### The accounts -/

/-- The registry that a new dispatcher rebuilds from the journal. -/
def State.rebuilt (d : SubagentDispatcher) (s : State) : List SubagentRunEntry :=
  (rebuildFromJournal d.runHistoryLimit [] s.journal).1

/-- The registry can hold all runs of the journal, or the newest of them are those that were told
last. -/
def Retained (d : SubagentDispatcher) (journal : List SubagentJournalEvent) : Prop :=
  (dispatchTimes journal).length ≤ d.runHistoryLimit ∨ (dispatchTimes journal).Pairwise (· ≤ ·)

/-- Every event that tells of a dispatch is followed by at most one that tells of its end, and by
one if the dispatch has ended. A registry rebuilt from the journal has the runs of the live one,
with the statuses that are reported for theirs. -/
structure Accounted (report : SubagentRunStatus → SubagentRunStatus) (d : SubagentDispatcher)
    (s : State) : Prop where
  settled : ∀ before event after, s.journal = before ++ event :: after →
    event.payload.kind = .dispatched → ∃ x ∈ s.dispatches, x.sessionId = event.payload.runId ∧
        (tale x.sessionId after).count .settled ≤ 1 ∧
        (x.phase.hasEnded → (tale x.sessionId after).count .settled = 1)
  rebuilt : Retained d s.journal → ((s.rebuilt d).map (·.row)).Perm
      (s.runs.map fun entry => (entry.sessionId, report entry.status))

/-- What follows in the journal once it has told of a dispatch. -/
theorem Phase.Tells.after {phase : Phase} {past rest : List EventKind}
    (h : phase.Tells (past ++ .dispatched :: rest)) :
  rest.count .settled ≤ 1 ∧ (phase.hasEnded → rest.count .settled = 1)
  := by
  have hpast : past ++ .dispatched :: rest ≠ [] := by simp
  have hone : past ++ .dispatched :: rest = [.dispatched] → rest.count .settled ≤ 1 := by
    intro heq
    cases past with
    | nil =>
      obtain rfl := (List.cons.inj heq).2
      exact Nat.zero_le 1
    | cons kind past => simp at heq
  have htwo : past ++ .dispatched :: rest = [.dispatched, .settled] → rest.count .settled = 1 := by
    intro heq
    cases past with
    | nil =>
      obtain rfl := (List.cons.inj heq).2
      rfl
    | cons kind past =>
    obtain ⟨-, heq⟩ := List.cons.inj heq
    cases past with
    | nil => cases heq
    | cons kind past => simp at heq
  cases phase with
  | creating => exact absurd h hpast
  | announcing runner entry delivered =>
    use hone h.2
    intro hended
    cases hended
  | running runner entry =>
    use hone h
    intro hended
    cases hended
  | settling runner entry delivered caught status =>
    use (htwo h.2).le
    intro hended
    cases hended
  | ended =>
  have hcount := htwo (h.resolve_left hpast)
  use hcount.le
  intro _
  apply hcount

theorem SubagentRunStatus.interrupt_of_ne {status : SubagentRunStatus} (h : status ≠ .running) :
  status.interrupt = status
  := by
  cases status with
  | running => exact absurd rfl h
  | completed | partially | failed | cancelled | interrupted => rfl

/-- The rows of the runs of a journal, as a rebuilt registry shows them. -/
theorem row_interrupt (entry : SubagentRunEntry) :
  (interrupt entry).row = (entry.row.1, entry.row.2.interrupt)
  := by
  rw [interrupt]
  split_ifs with hruns
  · rw [SubagentRunEntry.row, SubagentRunEntry.row, hruns]
    rfl
  · rw [SubagentRunEntry.row, SubagentRunStatus.interrupt_of_ne hruns]

theorem startedAt_interrupt (entry : SubagentRunEntry) :
  (interrupt entry).startedAt = entry.startedAt
  := by
  rw [interrupt]
  split_ifs <;> rfl

/-- A registry that is rebuilt has the newest runs of the journal. -/
theorem rebuilt_eq (d : SubagentDispatcher) (s : State) :
  s.rebuilt d = keepNewest d.runHistoryLimit (sortByStart ((replay s.journal).map interrupt))
  := by
  rw [State.rebuilt, rebuildFromJournal]
  change (if replay s.journal = [] then _ else _ : List SubagentRunEntry × ℕ).1 = _
  split_ifs with hnone
  · rw [hnone]
    exact drop_nil.symm
  · rfl

/-- Entries that start in their order are sorted. -/
theorem sortByStart_of_pairwise {runs : List SubagentRunEntry}
    (h : (runs.map (·.startedAt)).Pairwise (· ≤ ·)) :
  sortByStart runs = runs
  := by
  apply List.Pairwise.insertionSort_eq
  apply pairwise_map.mp h

/-- A journal that tells of the dispatches as their phases say has the runs of the registry. -/
theorem Recorded.accounted {d : SubagentDispatcher} {s : State} (hs : Recorded d s) :
  Accounted (fun status => status.told.interrupt) d s
  := by
  constructor
  · intro before event after hjour hkind
    obtain ⟨i, x, hx, hrun⟩ := hs.known event (by rw [hjour]; simp)
    use x, mem_of_getElem? hx, hrun.symm
    have htells := hs.tells i x hx
    have hsplit : tale x.sessionId (before ++ event :: after) =
        tale x.sessionId before ++ .dispatched :: tale x.sessionId after := by
      have hevent : tale x.sessionId [event] = [.dispatched] := by
        rw [tale_of_same (by simpa using hrun), map_singleton, hkind]
      rw [append_cons, tale_append, tale_append, hevent, append_assoc]
      rfl
    rw [hjour, hsplit] at htells
    apply htells.after
  intro hretained
  obtain ⟨runs, hruns, hrows⟩ := hs.rows
  have hlen : (replay s.journal).length = runs.length := by
    rw [← length_map (·.row), hrows, length_map]
  have hreplayed : ((replay s.journal).map interrupt).map (·.row) =
      runs.map fun entry => (entry.sessionId, entry.status.told.interrupt) := by
    have hrow : (fun entry : SubagentRunEntry => (interrupt entry).row) =
        (fun row => (row.1, row.2.interrupt)) ∘ (·.row) := funext row_interrupt
    rw [map_map]
    change (replay s.journal).map (fun entry => (interrupt entry).row) = _
    rw [hrow, ← map_map, hrows, map_map]
    rfl
  rw [rebuilt_eq, hruns]
  rcases hretained with hcount | hsorted
  · have hshort : (replay s.journal).length ≤ d.runHistoryLimit := by
      have hle := (startedAt_replay s.journal).length_le
      rw [length_map] at hle
      omega
    have hperm : (sortByStart ((replay s.journal).map interrupt)).Perm
        ((replay s.journal).map interrupt) := perm_insertionSort _ _
    rw [keepNewest_of_length_le (by rw [hperm.length_eq, length_map]; exact hshort),
      keepNewest_of_length_le (by omega), ← hreplayed]
    apply hperm.map
  have hstarts : (((replay s.journal).map interrupt).map (·.startedAt)).Pairwise
      (· ≤ ·) := by
    have hsame : ((replay s.journal).map interrupt).map (·.startedAt) =
        (replay s.journal).map (·.startedAt) := by
      rw [map_map]
      apply map_congr_left
      intro entry _
      apply startedAt_interrupt
    rw [hsame]
    apply hsorted.sublist (startedAt_replay s.journal)
  rw [sortByStart_of_pairwise hstarts, keepNewest_map, keepNewest_map, hreplayed,
    length_map, hlen]

/-- In every run in which no event of a dispatch fails, the journal is an account of the runs of
the registry, where an exhausted budget is told as completed. -/
theorem accounted_of_delivering
    (d : SubagentDispatcher) (as : List Action) (s : State) (hd : Function.Injective d.uuidv7)
    (hok : Guarded (step d) (Delivering d) State.initial as)
    (hrun : run (step d) State.initial as = some s) :
  Accounted (fun status => status.told.interrupt) d s
  := by
  have hrec : Recorded d s :=
    hok.invariant (fun _ _ _ hs hok ht => hs.step hd hok ht) (Recorded.initial d) hrun
  apply hrec.accounted

theorem injective_uuidv7_sampleDispatcher :
  Function.Injective sampleDispatcher.uuidv7
  := by
  intro m n h
  have hlen := congrArg (fun s : String => s.toList.length) h
  simpa [sampleDispatcher] using hlen

theorem accounted_of_delivering_dispatchedOnce :
  ∃ s, run (step sampleDispatcher) State.initial dispatchedOnce = some s ∧
    Accounted (fun status => status.told.interrupt) sampleDispatcher s
  := by
  have hsome : (run (step sampleDispatcher) State.initial dispatchedOnce).isSome := by
    decide +kernel
  have hok : Guarded (step sampleDispatcher) (Delivering sampleDispatcher) State.initial
      dispatchedOnce := by
    decide +kernel
  obtain ⟨s, hs⟩ := Option.isSome_iff_exists.mp hsome
  use s, hs
  apply accounted_of_delivering sampleDispatcher dispatchedOnce s
    injective_uuidv7_sampleDispatcher hok hs

/-- A run whose last turn was aborted when its budget was exhausted. -/
def exhaustedOnce : List Action :=
  [.dispatch sampleParent sampleInput false, .created 0 0 0 0, .announced 0,
    .ran 0 { sampleFinal with turns := [⟨"t", "m", .aborted, 1, none, none⟩] } false 1 1,
    .settled 0]

/-- Two dispatches, one after the other, while the clock goes back. -/
def dispatchedBackwards : List Action :=
  [.dispatch sampleParent sampleInput false, .created 0 0 1 1, .announced 0,
    .ran 0 sampleFinal false 1 1, .settled 0, .dispatch sampleParent sampleInput false,
    .created 1 1 0 0]

/-- A run whose budget was exhausted is rebuilt as completed. Of more runs than the registry holds,
others are rebuilt than it has, if the clock has gone back. -/
theorem not_accounted :
  (¬ ∀ d as s, Function.Injective d.uuidv7 → Guarded (step d) (Delivering d) State.initial as →
    run (step d) State.initial as = some s → Accounted SubagentRunStatus.interrupt d s) ∧
  ¬ ∀ d as s, Function.Injective d.uuidv7 → Guarded (step d) (Delivering d) State.initial as →
    run (step d) State.initial as = some s →
    ((s.rebuilt d).map (·.sessionId)).Perm (s.runs.map (·.sessionId))
  := by
  constructor
  · intro h
    have hok : Guarded (step sampleDispatcher) (Delivering sampleDispatcher) State.initial
        exhaustedOnce := by
      decide +kernel
    have hseen : ((run (step sampleDispatcher) State.initial exhaustedOnce).map fun s =>
        ((s.rebuilt sampleDispatcher).map (·.row),
          s.runs.map (fun entry => (entry.sessionId, entry.status.interrupt)),
          dispatchTimes s.journal)) =
        some ([("s", .completed)], [("s", .partially)], [0]) := by
      decide +kernel
    obtain ⟨s, hrun, hrows⟩ := Option.map_eq_some_iff.mp hseen
    obtain ⟨hreb, hlive⟩ := Prod.mk.inj hrows
    obtain ⟨hlive, htimes⟩ := Prod.mk.inj hlive
    have hacct := h sampleDispatcher exhaustedOnce s injective_uuidv7_sampleDispatcher hok hrun
    have hretained : Retained sampleDispatcher s.journal := by
      left
      rw [htimes]
      decide
    have hperm := hacct.rebuilt hretained
    rw [hreb, hlive] at hperm
    revert hperm
    decide
  intro h
  have hok : Guarded (step { sampleDispatcher with runHistoryLimit := 1 })
      (Delivering { sampleDispatcher with runHistoryLimit := 1 }) State.initial
      dispatchedBackwards := by
    decide +kernel
  have hseen : ((run (step { sampleDispatcher with runHistoryLimit := 1 }) State.initial
      dispatchedBackwards).map fun s =>
        ((s.rebuilt { sampleDispatcher with runHistoryLimit := 1 }).map (·.sessionId),
          s.runs.map (·.sessionId))) = some (["s"], ["ss"]) := by
    decide +kernel
  obtain ⟨s, hrun, hrows⟩ := Option.map_eq_some_iff.mp hseen
  obtain ⟨hreb, hlive⟩ := Prod.mk.inj hrows
  have hperm := h { sampleDispatcher with runHistoryLimit := 1 } dispatchedBackwards s
    injective_uuidv7_sampleDispatcher hok hrun
  rw [hreb, hlive] at hperm
  revert hperm
  decide

end Subagent
