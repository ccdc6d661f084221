import VolundCode.Core.Events

/-!
# Replay

A session is rebuilt from the lines of its log. What the log is for is its transcript: the
messages of the conversation, the turns of the session and what they used, each event of the
session adding to it in order (`Transcript`).

The replay of a log that the session store wrote, with the events of subagents forwarded to it
in between and lines copied later on, is the transcript of the events of the session alone
(`transcriptOf_replay`).
-/

namespace Core

open ProviderKit List

/-! ### Transcripts -/

/-- What the events of a session say: its messages, its turns with how they stand, and what the
completed turns used. -/
structure Transcript where
  messages : List (String × Role × List ContentPart)
  turns : List (String × TurnStatus)
  usage : Spending

namespace Transcript

/-- Nothing is said. -/
def empty : Transcript where
  messages := []
  turns := []
  usage := 0

/-- Gives the first turn with the id the status. -/
def settle (turnId : String) (status : TurnStatus) :
    List (String × TurnStatus) → List (String × TurnStatus)
  | [] => []
  | turn :: turns =>
    if turn.1 = turnId then (turn.1, status) :: turns else turn :: settle turnId status turns

/-- What one more event adds. -/
def add (t : Transcript) : Payload → Transcript
  | .messageAppended messageId role content =>
    { t with messages := t.messages ++ [(messageId, role, content)] }
  | .turnStarted turnId _ _ => { t with turns := t.turns ++ [(turnId, .streaming)] }
  | .turnCompleted turnId usage _ =>
    { t with
      turns := settle turnId .done t.turns
      usage := t.usage + Spending.ofUsage usage }
  | .turnAborted turnId _ => { t with turns := settle turnId .aborted t.turns }
  | _ => t

end Transcript

/-- What a list of events says. -/
def transcript (events : List CoreEvent) : Transcript :=
  events.foldl (fun t e => t.add e.payload) .empty

/-- What one more event adds to a transcript. -/
theorem transcript_append (events : List CoreEvent) (e : CoreEvent) :
  transcript (events ++ [e]) = (transcript events).add e.payload
  := by
  rw [transcript, foldl_append]
  rfl

/-! ### The log -/

/-- The kinds of lines a replay tells apart. -/
inductive LineKind where
  | sessionStarted
  | turnStarted
  | turnCompleted
  | turnAborted
  | other
  | snapshot
  | unknown
  deriving DecidableEq, Repr

/-- The kind of an event. -/
def Payload.kind : Payload → LineKind
  | .sessionStarted _ _ _ => .sessionStarted
  | .turnStarted _ _ _ => .turnStarted
  | .turnCompleted _ _ _ => .turnCompleted
  | .turnAborted _ _ => .turnAborted
  | _ => .other

/-- What a line holds: an event, an event with a payload of an older shape and the directory it
names, or a snapshot of the whole state. -/
inductive Line where
  | event (payload : Payload)
  | legacy (kind : LineKind) (cwd : Option String)
  | snapshot (state : Option SessionState)

/-- The kind of a line. -/
def Line.kind : Line → LineKind
  | .event payload => payload.kind
  | .legacy kind _ => kind
  | .snapshot _ => .snapshot

/-- The payload of a line, if it meets the contract of its event. -/
def Line.parsed : Line → Option Payload
  | .event payload => if payload.conforms then some payload else none
  | _ => none

/-- The state of a snapshot. -/
def Line.state : Line → Option SessionState
  | .snapshot state => state
  | _ => none

structure StoredEvent where
  id : String
  sessionId : String
  turnId : Option String
  parentTurnId : Option String
  parentDepth : Option ℕ
  time : ℤ
  line : Line

/-- The lines of a log and the ids of its events. -/
structure SessionStore where
  seen : List String
  lines : List StoredEvent

/-- The line of an event. -/
def storedEvent (e : CoreEvent) (now : ℤ) : StoredEvent where
  id := e.id
  sessionId := e.sessionId
  turnId := e.turnId.filter (· ≠ "")
  parentTurnId := e.parentTurnId.filter (· ≠ "")
  parentDepth := e.parentDepth
  time := now
  line := .event e.payload

/-- The event is an increment of a stream. -/
def Payload.isDelta : Payload → Bool
  | .streamDelta _ _ _ => true
  | _ => false

/-- `appendCore`: an event gets a line of its own unless it is an increment of a stream or has
one. -/
def SessionStore.appendCore (store : SessionStore) (e : CoreEvent) (now : ℤ) : SessionStore :=
  if e.payload.isDelta || store.seen.contains e.id then store
  else
    { seen := e.id :: store.seen
      lines := store.lines ++ [storedEvent e now] }

/-- The store of what was delivered on the bus, with the times at which it was written. -/
def storeOf (delivered : List (CoreEvent × ℤ)) : SessionStore :=
  delivered.foldl (fun (store : SessionStore) e => store.appendCore e.1 e.2)
    { seen := [], lines := [] }

/-- The log of what was delivered on the bus. -/
def sessionLog (delivered : List (CoreEvent × ℤ)) : List StoredEvent :=
  (storeOf delivered).lines

/-! ### The replay -/

/-- `isBubbledEvent`: the event was forwarded from a subagent. -/
def isBubbledEvent (e : StoredEvent) : Bool :=
  e.parentTurnId.isSome || decide (0 < e.parentDepth.getD 0)

/-- A turn ends. -/
def settleTurn (s : SessionState) (turnId : String) (aborted : Bool) : SessionState :=
  if turnId = "" then s
  else
    updateSession s fun s =>
      { s with turns := setStatus turnId (if aborted then .aborted else .done) s.turns }

/-- A turn starts. -/
def startTurn (s : SessionState) (turnId : String) (parentDepth : ℕ)
    (parentTurnId agentType : Option String) : SessionState :=
  updateSession s fun s =>
    { s with
      turns := s.turns ++
        [{ id := turnId
           startMessageId := ""
           status := .streaming
           parentDepth := parentDepth
           parentTurnId := parentTurnId
           agentType := agentType }] }

/-- What an event makes of the state. The events of subagents make turns of their own, and no
messages and no usage. -/
def applyPayload (base : Bool) (now : ℤ) (e : StoredEvent) (s : SessionState) :
    Payload → SessionState
  | .sessionStarted cwd _ _ =>
    if cwd ≠ "" ∧ base = false then updateSession s fun s => { s with cwd := cwd } else s
  | .sessionModelChanged model => updateSession s fun s => { s with model := some model }
  | .turnStarted turnId parentTurnId agentType =>
    startTurn s turnId (e.parentDepth.getD 0) parentTurnId agentType
  | .turnCompleted turnId usage _ =>
    settleTurn
      (if isBubbledEvent e then s
       else updateSession s fun s => { s with cumulativeUsage := s.cumulativeUsage.add usage })
      turnId false
  | .turnAborted turnId _ => settleTurn s turnId true
  | .messageAppended messageId role content =>
    if isBubbledEvent e then s
    else
      updateSession s fun s =>
        { s with
          messages := s.messages ++
            [{ id := messageId
               role := role
               content := content
               createdAt := if e.time = 0 then now else e.time
               info := Meta.empty }] }
  | _ => s

/-- What a line of an older shape makes of the state. -/
def applyLegacy (e : StoredEvent) (s : SessionState) : SessionState :=
  match e.line.kind with
  | .turnStarted =>
    match e.turnId with
    | some turnId => if turnId = "" then s else startTurn s turnId (e.parentDepth.getD 0) none none
    | none => s
  | .turnCompleted => settleTurn s (e.turnId.getD "") false
  | .turnAborted => settleTurn s (e.turnId.getD "") true
  | _ => s

/-- No schema knows the kind of the line. -/
def Line.unknown (line : Line) : Bool :=
  line.kind = .snapshot || line.kind = .unknown

/-- What a line makes of the state. -/
def applyLine (base : Bool) (now : ℤ) (s : SessionState) (e : StoredEvent) : SessionState :=
  if e.line.unknown then s
  else
    match e.line.parsed with
    | some payload => applyPayload base now e s payload
    | none => applyLegacy e s

/-- The line tells that there was a session. -/
def Line.finds (e : StoredEvent) : Bool :=
  match e.line.parsed with
  | some payload => payload.kind = .sessionStarted || payload.kind = .turnStarted
  | none =>
    match e.line.kind with
    | .turnStarted => e.turnId.any (· ≠ "")
    | .turnCompleted => true
    | .turnAborted => true
    | _ => false

/-- The line is skipped, and reported as skipped. -/
def Line.skips (e : StoredEvent) : Bool :=
  !e.line.unknown && e.line.parsed.isNone &&
    match e.line.kind with
    | .turnStarted => !e.turnId.any (· ≠ "")
    | .turnCompleted => false
    | .turnAborted => false
    | _ => true

/-- How far a replay has come. -/
structure Progress where
  draft : SessionState
  seen : List String
  found : Bool
  skipped : List String

/-- One line of the log: a line whose event has been replayed is passed over. -/
def replayLine (base : Bool) (now : ℤ) (p : Progress) (e : StoredEvent) : Progress :=
  if p.seen.contains e.id then p
  else
    { draft := applyLine base now p.draft e
      seen := e.id :: p.seen
      found := p.found || (!e.line.unknown && Line.finds e)
      skipped := if Line.skips e then p.skipped ++ [e.id] else p.skipped }

/-- The last snapshot of a log and the lines after it. -/
def lastSnapshot : List StoredEvent → Option (StoredEvent × List StoredEvent)
  | [] => none
  | e :: rest =>
    match lastSnapshot rest with
    | some found => some found
    | none => if e.line.kind = .snapshot then some (e, rest) else none

/-- `cwdOf`: the directory of the first line that names one. -/
def cwdOf : List StoredEvent → String
  | [] => ""
  | e :: rest =>
    match e.line with
    | .event (.sessionStarted cwd _ _) => cwd
    | .legacy .sessionStarted (some cwd) => cwd
    | _ => cwdOf rest

structure ReplayOptions where
  maxTokens : Option ℚ
  toolRegistrySnapshot : Option String

/-- The options a replay has unless it is given others. -/
def ReplayOptions.default : ReplayOptions where
  maxTokens := none
  toolRegistrySnapshot := none

structure ReplayResult where
  state : SessionState
  found : Bool
  skippedEventIds : List String

/-- The turn has ended. -/
def TurnStatus.terminal : TurnStatus → Bool
  | .done => true
  | .aborted => true
  | .error => true
  | _ => false

/-- A turn that has not ended ends with the replay. -/
def Turn.close (turn : Turn) : Turn :=
  if turn.status.terminal then turn else { turn with status := .aborted }

/-- `replaySessionState`: the session as its log tells it. -/
def replaySessionState (sessionId : String) (events : List StoredEvent) (options : ReplayOptions)
    (now : ℤ) : ReplayResult :=
  let snapshot := lastSnapshot events
  let base := snapshot.bind fun found => found.1.line.state
  let rest :=
    match snapshot, base with
    | some found, some _ => found.2
    | _, _ => events
  let unread :=
    match snapshot, base with
    | some found, none => [found.1.id]
    | _, _ => []
  let state := base.getD
    (createSession sessionId (cwdOf events) (options.maxTokens.getD 200000)
      (options.toolRegistrySnapshot.getD "") none none now)
  let progress := rest.foldl (replayLine base.isSome now)
    { draft := state
      seen := []
      found := base.isSome || events.any fun e => e.line.kind = .sessionStarted
      skipped := unread }
  { state := updateSession progress.draft fun s =>
      { s with
        activeTurn := none
        pendingInterrupt := false
        turns := s.turns.map Turn.close }
    found := progress.found
    skippedEventIds := progress.skipped }

/-! ### Lines that are passed over -/

/-- The lines a replay does not pass over. -/
def firsts : List String → List StoredEvent → List StoredEvent
  | _, [] => []
  | seen, e :: events =>
    if seen.contains e.id then firsts seen events else e :: firsts (e.id :: seen) events

/-- A replay makes of the state what the lines it does not pass over make of it. -/
theorem foldl_replayLine (base : Bool) (now : ℤ) (events : List StoredEvent) (p : Progress) :
  (events.foldl (replayLine base now) p).draft =
    (firsts p.seen events).foldl (applyLine base now) p.draft
  := by
  induction events generalizing p with
  | nil => rfl
  | cons e events ih =>
  rw [foldl_cons, ih, firsts, replayLine]
  by_cases hseen : p.seen.contains e.id
  · rw [if_pos hseen, if_pos hseen]
  · rw [if_neg hseen, if_neg hseen]
    rfl

/-- Lines with ids of their own are not passed over. -/
theorem firsts_of_nodup {seen : List String} {events : List StoredEvent}
    (hseen : ∀ e ∈ events, e.id ∉ seen) (hnodup : (events.map StoredEvent.id).Nodup) :
  firsts seen events = events
  := by
  induction events generalizing seen with
  | nil => rfl
  | cons e events ih =>
  rw [map_cons, nodup_cons] at hnodup
  have he : seen.contains e.id = false := by
    simpa using hseen e mem_cons_self
  rw [firsts, he, if_neg Bool.false_ne_true, ih _ hnodup.2]
  intro f hf
  rw [mem_cons, not_or]
  constructor
  · intro heq
    apply hnodup.1
    rw [← heq]
    apply mem_map_of_mem hf
  · apply hseen f (mem_cons_of_mem _ hf)

/-- A log to which lines of it have been copied, after where they stand. -/
inductive Copied (log : List StoredEvent) : List StoredEvent → Prop
  | refl : Copied log log
  | copy {past rest : List StoredEvent} {e : StoredEvent} (h : Copied log (past ++ rest))
      (he : e ∈ past) : Copied log (past ++ e :: rest)

variable {e : StoredEvent}

/-- A line that stands before is passed over. -/
theorem firsts_copy {past rest : List StoredEvent} (seen : List String)
    (he : e.id ∈ seen ∨ e ∈ past) :
  firsts seen (past ++ e :: rest) = firsts seen (past ++ rest)
  := by
  induction past generalizing seen with
  | nil =>
    have hseen : e.id ∈ seen := he.resolve_right not_mem_nil
    rw [nil_append, nil_append, firsts, if_pos (by simpa using hseen)]
  | cons f past ih =>
  rw [cons_append, cons_append, firsts, firsts]
  split_ifs with hf
  · apply ih
    rcases he with he | he
    · left
      apply he
    rcases mem_cons.mp he with rfl | he
    · left
      simpa using hf
    · right
      apply he
  congr 1
  apply ih
  rcases he with he | he
  · left
    apply mem_cons_of_mem _ he
  rcases mem_cons.mp he with rfl | he
  · left
    apply mem_cons_self
  · right
    apply he

/-- Copies of lines are passed over. -/
theorem Copied.firsts_eq {log log' : List StoredEvent} (h : Copied log log') :
  firsts [] log' = firsts [] log
  := by
  induction h with
  | refl => rfl
  | copy _ he ih => rw [firsts_copy [] (Or.inr he), ih]

/-- Copies are copies of lines of the log. -/
theorem Copied.mem {log log' : List StoredEvent} (h : Copied log log') (he : e ∈ log') :
  e ∈ log
  := by
  induction h with
  | refl => apply he
  | copy _ hpast ih =>
  rcases mem_append.mp he with hmem | hmem
  · apply ih (mem_append_left _ hmem)
  · rcases mem_cons.mp hmem with rfl | hmem
    · apply ih (mem_append_left _ hpast)
    · apply ih (mem_append_right _ hmem)

/-! ### The transcript of a state -/

/-- What a message says. -/
def said (m : Message) : String × Role × List ContentPart :=
  (m.id, m.role, m.content)

/-- How a turn stands. -/
def standing (turn : Turn) : String × TurnStatus :=
  (turn.id, turn.status)

/-- The turns of the session itself. -/
def ownTurns (turns : List Turn) : List Turn :=
  turns.filter fun turn => turn.parentDepth = 0

/-- What a state says. -/
def transcriptOf (s : SessionState) : Transcript where
  messages := s.messages.map said
  turns := (ownTurns s.turns).map standing
  usage := s.cumulativeUsage.spending

theorem map_standing_setStatus (turnId : String) (status : TurnStatus) (turns : List Turn) :
  (setStatus turnId status turns).map standing =
    Transcript.settle turnId status (turns.map standing)
  := by
  induction turns with
  | nil => rfl
  | cons turn turns ih =>
  rw [setStatus, map_cons, Transcript.settle]
  split_ifs with h h' h'
  · rfl
  · exact (h' h).elim
  · exact (h h').elim
  · rw [map_cons, ih]

variable {turnId : String}

/-- A turn of the session ends among the turns of the session. -/
theorem ownTurns_setStatus {status : TurnStatus} {turns : List Turn}
    (h : ∀ turn ∈ turns, turn.id = turnId → turn.parentDepth = 0) :
  ownTurns (setStatus turnId status turns) = setStatus turnId status (ownTurns turns)
  := by
  induction turns with
  | nil => rfl
  | cons turn turns ih =>
  have hrest := ih fun t ht => h t (mem_cons_of_mem _ ht)
  rw [setStatus]
  split_ifs with hid
  · have hdepth : turn.parentDepth = 0 := h turn mem_cons_self hid
    rw [ownTurns, filter_cons, if_pos (by simpa using hdepth), ownTurns, filter_cons,
      if_pos (by simpa using hdepth), setStatus, if_pos hid]
  rw [ownTurns, filter_cons, ownTurns, filter_cons]
  split_ifs
  · rw [setStatus, if_neg hid, ← ownTurns, hrest, ownTurns]
  · apply hrest

/-- A turn of a subagent ends without the turns of the session. -/
theorem ownTurns_setStatus_forwarded {status : TurnStatus} {turns : List Turn}
    (h : ∀ turn ∈ turns, turn.id = turnId → turn.parentDepth ≠ 0) :
  ownTurns (setStatus turnId status turns) = ownTurns turns
  := by
  induction turns with
  | nil => rfl
  | cons turn turns ih =>
  have hrest := ih fun t ht => h t (mem_cons_of_mem _ ht)
  rw [setStatus]
  split_ifs with hid
  · have hdepth : turn.parentDepth ≠ 0 := h turn mem_cons_self hid
    rw [ownTurns, filter_cons, if_neg (by simpa using hdepth), ownTurns, filter_cons,
      if_neg (by simpa using hdepth)]
  rw [ownTurns, filter_cons, ownTurns, filter_cons]
  split_ifs
  · rw [← ownTurns, hrest, ownTurns]
  · apply hrest

/-! ### Events of the session and of its subagents -/

/-- The turn an event starts or ends. -/
def Payload.turn : Payload → Option String
  | .turnStarted turnId _ _ => some turnId
  | .turnCompleted turnId _ _ => some turnId
  | .turnAborted turnId _ => some turnId
  | _ => none

/-- The turns of the session are those with these ids. -/
def Separate (own : List String) (s : SessionState) : Prop :=
  ∀ turn ∈ s.turns, turn.id ∈ own ↔ turn.parentDepth = 0

theorem mem_setStatus {status : TurnStatus} {turns : List Turn} {turn : Turn}
    (h : turn ∈ setStatus turnId status turns) :
  ∃ t ∈ turns, t.id = turn.id ∧ t.parentDepth = turn.parentDepth
  := by
  induction turns with
  | nil => simp [setStatus] at h
  | cons t turns ih =>
  rw [setStatus] at h
  split_ifs at h
  · rcases mem_cons.mp h with rfl | h
    · use t, mem_cons_self
    · use turn, mem_cons_of_mem _ h
  rcases mem_cons.mp h with rfl | h
  · use turn, mem_cons_self
  · obtain ⟨u, hu, heq⟩ := ih h
    use u, mem_cons_of_mem _ hu

variable {own : List String} {s : SessionState}

theorem Separate.settleTurn (h : Separate own s) (turnId : String) (aborted : Bool) :
  Separate own (settleTurn s turnId aborted)
  := by
  rw [Core.settleTurn]
  split
  · apply h
  intro turn hturn
  obtain ⟨t, ht, hid, hdepth⟩ := mem_setStatus hturn
  rw [← hid, ← hdepth]
  apply h t ht

theorem Separate.startTurn (h : Separate own s)
    {parentDepth : ℕ} {parentTurnId agentType : Option String}
    (hturn : turnId ∈ own ↔ parentDepth = 0) :
  Separate own (startTurn s turnId parentDepth parentTurnId agentType)
  := by
  intro turn ht
  rcases mem_append.mp ht with ht | ht
  · apply h turn ht
  · rw [mem_singleton.mp ht]
    apply hturn

variable {payload : Payload} {base : Bool} {now : ℤ}

/-- An event keeps the turns apart, if it is one of the session exactly when its turn is. -/
theorem Separate.applyPayload (h : Separate own s)
    (hstart : ∀ turnId parentTurnId agentType, payload = .turnStarted turnId parentTurnId agentType →
      (turnId ∈ own ↔ e.parentDepth.getD 0 = 0)) :
  Separate own (applyPayload base now e s payload)
  := by
  cases payload with
  | turnStarted turnId parentTurnId agentType =>
    apply h.startTurn (hstart _ _ _ rfl)
  | turnCompleted turnId usage stopReason =>
    rw [Core.applyPayload]
    apply Separate.settleTurn
    split_ifs
    · apply h
    · apply h
  | turnAborted turnId reason => apply h.settleTurn
  | messageAppended messageId role content =>
    rw [Core.applyPayload]
    split
    · apply h
    · apply h
  | sessionStarted cwd configHash volundVersion =>
    rw [Core.applyPayload]
    split_ifs
    · apply h
    · apply h
  | _ => apply h

/-- The end of a turn of the session in the transcript. -/
theorem transcriptOf_settleTurn (h : Separate own s)
    (hown : turnId ∈ own) (hne : turnId ≠ "") (aborted : Bool) :
  transcriptOf (settleTurn s turnId aborted) =
    { transcriptOf s with
      turns := Transcript.settle turnId (if aborted then .aborted else .done)
        (transcriptOf s).turns }
  := by
  have hdepth : ∀ turn ∈ s.turns, turn.id = turnId → turn.parentDepth = 0 := by
    rintro turn hturn rfl
    apply (h turn hturn).mp hown
  rw [settleTurn, if_neg hne]
  simp only [transcriptOf, updateSession, ownTurns_setStatus hdepth, map_standing_setStatus]

/-- The end of a turn of a subagent is not in the transcript. -/
theorem transcriptOf_settleTurn_forwarded
    (h : Separate own s) (hown : turnId ∉ own) (aborted : Bool) :
  transcriptOf (settleTurn s turnId aborted) = transcriptOf s
  := by
  have hdepth : ∀ turn ∈ s.turns, turn.id = turnId → turn.parentDepth ≠ 0 := by
    rintro turn hturn rfl
    apply (h turn hturn).not.mp hown
  rw [settleTurn]
  split
  · rfl
  · simp only [transcriptOf, updateSession, ownTurns_setStatus_forwarded hdepth]

/-- An event of the session adds to the transcript of the state what it says. -/
theorem transcriptOf_applyPayload (h : Separate own s)
    (hconf : payload.conforms) (hturn : ∀ turnId ∈ payload.turn, turnId ∈ own)
    (hown : isBubbledEvent e = false) :
  transcriptOf (applyPayload base now e s payload) = (transcriptOf s).add payload
  := by
  have hdepth : e.parentDepth.getD 0 = 0 := by
    simp only [isBubbledEvent, Bool.or_eq_false_iff, decide_eq_false_iff_not] at hown
    omega
  cases payload with
  | turnStarted turnId parentTurnId agentType =>
    simp [applyPayload, startTurn, transcriptOf, updateSession, ownTurns, filter_append,
      hdepth, Transcript.add, standing]
  | turnCompleted turnId usage stopReason =>
    have hne : turnId ≠ "" := by
      simp only [Payload.conforms, Bool.and_eq_true, decide_eq_true_eq] at hconf
      apply hconf.1
    rw [applyPayload, hown, if_neg Bool.false_ne_true,
      @transcriptOf_settleTurn _ own _ _ (hturn turnId rfl) hne]
    · rfl
    · apply h
  | turnAborted turnId reason =>
    have hne : turnId ≠ "" := by
      simpa [Payload.conforms] using hconf
    rw [applyPayload, transcriptOf_settleTurn h (hturn turnId rfl) hne]
    rfl
  | messageAppended messageId role content =>
    rw [applyPayload, hown, if_neg Bool.false_ne_true]
    simp [transcriptOf, updateSession, Transcript.add, said]
  | sessionStarted cwd configHash volundVersion =>
    rw [applyPayload]
    split_ifs
    · rfl
    · rfl
  | _ => rfl

/-- An event of a subagent adds nothing to the transcript of the state. -/
theorem transcriptOf_applyPayload_forwarded
    (h : Separate own s) (hturn : ∀ turnId ∈ payload.turn, turnId ∉ own)
    (hdeep : payload.kind = .turnStarted → 0 < e.parentDepth.getD 0) (hfwd : isBubbledEvent e) :
  transcriptOf (applyPayload base now e s payload) = transcriptOf s
  := by
  cases payload with
  | turnStarted turnId parentTurnId agentType =>
    have hdepth : e.parentDepth.getD 0 ≠ 0 := (hdeep rfl).ne'
    simp [applyPayload, startTurn, transcriptOf, updateSession, ownTurns, filter_append, hdepth]
  | turnCompleted turnId usage stopReason =>
    rw [applyPayload, hfwd, if_pos rfl, transcriptOf_settleTurn_forwarded h (hturn turnId rfl)]
  | turnAborted turnId reason =>
    rw [applyPayload, transcriptOf_settleTurn_forwarded h (hturn turnId rfl)]
  | messageAppended messageId role content => rw [applyPayload, hfwd, if_pos rfl]
  | sessionStarted cwd configHash volundVersion =>
    rw [applyPayload]
    split_ifs
    · rfl
    · rfl
  | _ => rfl

/-! ### What is delivered -/

/-- The event was forwarded from a subagent. -/
def CoreEvent.forwarded (e : CoreEvent) : Bool :=
  e.parentTurnId.any (· ≠ "") || decide (0 < e.parentDepth.getD 0)

/-- The turns the events start or end. -/
def turnsOf (events : List CoreEvent) : List String :=
  events.filterMap fun e => e.payload.turn

/-- What is delivered on the bus of a session: its own events in order, and events of subagents
in between, which have ids and turns of their own. Every payload on the bus conforms. -/
structure Delivered (own : List CoreEvent) (delivered : List (CoreEvent × ℤ)) : Prop where
  order : (delivered.map Prod.fst).filter (fun e => !e.forwarded) = own
  conforms : ∀ d ∈ delivered, d.1.payload.conforms
  ids : ∀ d ∈ delivered, d.1.forwarded → d.1.id ∉ own.map CoreEvent.id
  turns : ∀ d ∈ delivered, d.1.forwarded → ∀ turnId ∈ d.1.payload.turn, turnId ∉ turnsOf own

/-- The events of subagents that start turns say how deep they are. -/
def Deep (delivered : List (CoreEvent × ℤ)) : Prop :=
  ∀ d ∈ delivered, d.1.forwarded → d.1.payload.kind = .turnStarted → 0 < d.1.parentDepth.getD 0

theorem isBubbledEvent_storedEvent (e : CoreEvent) (now : ℤ) :
  isBubbledEvent (storedEvent e now) = e.forwarded
  := by
  rw [isBubbledEvent, CoreEvent.forwarded, storedEvent]
  congr 1
  cases e.parentTurnId with
  | none => rfl
  | some parentTurnId =>
    by_cases h : parentTurnId = ""
    · simp [h]
    · simp [h]

/-- The lines of a log are those of the events delivered, each once. -/
structure SessionStore.Of (delivered : List (CoreEvent × ℤ)) (store : SessionStore) : Prop where
  seen : ∀ id ∈ store.seen, ∃ d ∈ delivered, d.1.id = id
  ids : ∀ l ∈ store.lines, l.id ∈ store.seen
  nodup : (store.lines.map StoredEvent.id).Nodup
  lines : ∀ l ∈ store.lines, ∃ d ∈ delivered, l = storedEvent d.1 d.2

theorem storeOf_append (delivered : List (CoreEvent × ℤ)) (d : CoreEvent × ℤ) :
  storeOf (delivered ++ [d]) = (storeOf delivered).appendCore d.1 d.2
  := by
  rw [storeOf, foldl_append]
  rfl

theorem storeOf_of (delivered : List (CoreEvent × ℤ)) :
  (storeOf delivered).Of delivered
  := by
  induction delivered using List.reverseRecOn with
  | nil =>
    constructor
    all_goals simp [storeOf]
  | append_singleton delivered d ih =>
  rw [storeOf_append, SessionStore.appendCore]
  split
  · constructor
    · intro id hid
      obtain ⟨e, he, heq⟩ := ih.seen id hid
      use e, mem_append_left _ he
    · apply ih.ids
    · apply ih.nodup
    · intro l hl
      obtain ⟨e, he, heq⟩ := ih.lines l hl
      use e, mem_append_left _ he
  rename_i h
  rw [Bool.or_eq_true, not_or] at h
  have hnew : d.1.id ∉ (storeOf delivered).seen := by simpa using h.2
  constructor
  · intro id hid
    rcases mem_cons.mp hid with rfl | hid
    · use d, by simp
    · obtain ⟨e, he, heq⟩ := ih.seen id hid
      use e, mem_append_left _ he
  · intro l hl
    rcases mem_append.mp hl with hl | hl
    · apply mem_cons_of_mem _ (ih.ids l hl)
    · rw [mem_singleton.mp hl]
      apply mem_cons_self
  · rw [map_append, nodup_append]
    use ih.nodup, nodup_singleton _
    rintro _ hid _ hmem rfl
    obtain ⟨l, hl, heq⟩ := mem_map.mp hid
    apply hnew
    rw [mem_singleton.mp hmem] at heq
    change l.id = d.1.id at heq
    rw [← heq]
    apply ih.ids l hl
  intro l hl
  rcases mem_append.mp hl with hl | hl
  · obtain ⟨e, he, heq⟩ := ih.lines l hl
    use e, mem_append_left _ he
  · use d, by simp, mem_singleton.mp hl

/-- What a line of an event on the bus makes of a state. -/
theorem applyLine_storedEvent {time : ℤ} {e : CoreEvent} (h : e.payload.conforms) :
  applyLine base now s (storedEvent e time) = applyPayload base now (storedEvent e time) s e.payload
  := by
  have hknown : (storedEvent e time).line.unknown = false := by
    have hkind : ∀ payload : Payload, (Line.event payload).unknown = false := by
      intro payload
      cases payload with
      | _ => rfl
    apply hkind
  rw [applyLine, hknown, if_neg Bool.false_ne_true]
  simp [storedEvent, Line.parsed, h]

/-- The increments of a stream say nothing. -/
theorem add_of_isDelta {t : Transcript} (h : payload.isDelta) :
  t.add payload = t
  := by
  cases payload with
  | streamDelta messageId kind fragment => rfl
  | _ => simp [Payload.isDelta] at h

/-- An event of the session has not been delivered before. -/
theorem Delivered.not_seen {own : List CoreEvent} {delivered : List (CoreEvent × ℤ)}
    (h : Delivered own delivered) (hnodup : (own.map CoreEvent.id).Nodup)
    {past rest : List (CoreEvent × ℤ)} {d : CoreEvent × ℤ} (heq : delivered = past ++ d :: rest)
    (hd : d.1.forwarded = false) :
  d.1.id ∉ (storeOf past).seen
  := by
  intro hseen
  obtain ⟨e, he, hid⟩ := (storeOf_of past).seen _ hseen
  have hown : own = (past.map Prod.fst).filter (fun e => !e.forwarded) ++
      d.1 :: (rest.map Prod.fst).filter fun e => !e.forwarded := by
    rw [← h.order, heq, map_append, filter_append, map_cons, filter_cons, hd]
    rfl
  cases hf : e.1.forwarded with
  | true =>
    apply h.ids e (by simp [heq, he]) hf
    rw [hid, hown]
    simp
  | false =>
  have hmem : d.1.id ∈ ((past.map Prod.fst).filter (fun e => !e.forwarded)).map
      CoreEvent.id := by
    rw [← hid]
    apply mem_map_of_mem
    rw [mem_filter]
    use mem_map_of_mem he
    simp [hf]
  rw [hown, map_append, nodup_append] at hnodup
  apply hnodup.2.2 _ hmem _ _ rfl
  simp

/-- What the lines of the events delivered so far make of a state says what the events of the
session said so far. -/
theorem transcriptOf_storeOf {own : List CoreEvent} {delivered : List (CoreEvent × ℤ)}
    (h : Delivered own delivered) (hdeep : Deep delivered) (hnodup : (own.map CoreEvent.id).Nodup)
    (base : Bool) (now : ℤ) (hturns : s.turns = []) :
  ∀ {past rest : List (CoreEvent × ℤ)}, delivered = past ++ rest →
    Separate (turnsOf own) ((storeOf past).lines.foldl (applyLine base now) s) ∧
    transcriptOf ((storeOf past).lines.foldl (applyLine base now) s) =
      ((past.map Prod.fst).filter fun e => !e.forwarded).foldl
        (fun t e => t.add e.payload) (transcriptOf s)
  := by
  intro past
  induction past using List.reverseRecOn with
  | nil =>
    intro rest _
    constructor
    · intro turn hturn
      simp [storeOf, hturns] at hturn
    · rfl
  | append_singleton past d ih =>
  intro rest heq
  have hsplit : delivered = past ++ d :: rest := by simp [heq]
  obtain ⟨hsep, htrans⟩ := ih hsplit
  have hd : d ∈ delivered := by simp [heq]
  have hown : d.1.forwarded = false → d.1 ∈ own := by
    intro hf
    rw [← h.order, mem_filter]
    use mem_map_of_mem hd
    simp [hf]
  have hfilt : ((past ++ [d]).map Prod.fst).filter (fun e => !e.forwarded) =
      (past.map Prod.fst).filter (fun e => !e.forwarded) ++
        if d.1.forwarded then [] else [d.1] := by
    rw [map_append, filter_append]
    cases hf : d.1.forwarded with
    | true | false => simp [hf]
  rw [storeOf_append, hfilt, foldl_append, ← htrans, SessionStore.appendCore]
  split
  · rename_i hpass
    use hsep
    cases hf : d.1.forwarded with
    | true => rfl
    | false =>
    rw [Bool.or_eq_true] at hpass
    rcases hpass with hdelta | hseen
    · rw [if_neg Bool.false_ne_true, foldl_cons, foldl_nil, add_of_isDelta hdelta]
    · exact (h.not_seen hnodup hsplit hf (by simpa using hseen)).elim
  have hstor : isBubbledEvent (storedEvent d.1 d.2) = d.1.forwarded :=
    isBubbledEvent_storedEvent d.1 d.2
  rw [foldl_append, foldl_cons, foldl_nil, applyLine_storedEvent (h.conforms d hd)]
  cases hf : d.1.forwarded with
  | true =>
    constructor
    · apply hsep.applyPayload
      intro turnId parentTurnId agentType hload
      have hforeign : turnId ∉ turnsOf own := h.turns d hd hf turnId (by rw [hload]; rfl)
      have hdepth : 0 < d.1.parentDepth.getD 0 := hdeep d hd hf (by rw [hload]; rfl)
      constructor
      · intro hmem
        exact (hforeign hmem).elim
      · intro hzero
        exact (hdepth.ne' hzero).elim
    · apply transcriptOf_applyPayload_forwarded hsep (h.turns d hd hf)
      · apply hdeep d hd hf
      · rw [hstor, hf]
  | false =>
  have hturn : ∀ turnId ∈ d.1.payload.turn, turnId ∈ turnsOf own := by
    intro turnId hturnId
    apply mem_filterMap.mpr
    use d.1, hown hf, hturnId
  constructor
  · apply hsep.applyPayload
    intro turnId parentTurnId agentType hload
    constructor
    · intro _
      rw [hf, isBubbledEvent, Bool.or_eq_false_iff] at hstor
      simpa using hstor.2
    intro _
    apply hturn turnId
    rw [hload]
    rfl
  · apply transcriptOf_applyPayload hsep (h.conforms d hd) hturn
    rw [hstor, hf]

theorem map_close_standing (turns : List Turn) :
  (ownTurns (turns.map Turn.close)).map standing =
    (ownTurns turns).map fun turn => standing turn.close
  := by
  have hdepth : ∀ turn : Turn, turn.close.parentDepth = turn.parentDepth := by
    intro turn
    rw [Turn.close]
    split
    · rfl
    · rfl
  rw [ownTurns, filter_map, map_map, ownTurns]
  congr 1
  apply filter_congr
  intro turn _
  simp [hdepth]

/-- How a turn of a transcript stands after a replay. -/
def Transcript.close (turn : String × TurnStatus) : String × TurnStatus :=
  if turn.2.terminal then turn else (turn.1, .aborted)

theorem standing_close (turn : Turn) :
  standing turn.close = Transcript.close (standing turn)
  := by
  rw [Turn.close, Transcript.close]
  change standing (if turn.status.terminal then turn else _) =
    if turn.status.terminal then standing turn else _
  split
  · rfl
  · rfl

theorem lastSnapshot_eq_none {events : List StoredEvent}
    (h : ∀ e ∈ events, e.line.kind ≠ .snapshot) :
  lastSnapshot events = none
  := by
  induction events with
  | nil => rfl
  | cons e events ih =>
    rw [lastSnapshot, ih fun f hf => h f (mem_cons_of_mem _ hf)]
    simp [h e mem_cons_self]

/-- The replay of the log of a session says what its events say, and ends the turns that have
not ended: neither the events of its subagents nor copied lines make a difference. -/
theorem transcriptOf_replay {own : List CoreEvent} {delivered : List (CoreEvent × ℤ)}
    (h : Delivered own delivered) (hdeep : Deep delivered) (hnodup : (own.map CoreEvent.id).Nodup)
    {log : List StoredEvent} (hlog : Copied (sessionLog delivered) log) (sessionId : String)
    (options : ReplayOptions) (now : ℤ) :
  transcriptOf (replaySessionState sessionId log options now).state =
    { transcript own with turns := (transcript own).turns.map Transcript.close }
  := by
  have hsnap : lastSnapshot log = none := by
    apply lastSnapshot_eq_none
    intro e he
    obtain ⟨d, _, rfl⟩ := (storeOf_of delivered).lines e (hlog.mem he)
    change d.1.payload.kind ≠ .snapshot
    cases d.1.payload with
    | _ => nofun
  have hfirsts : firsts [] log = (storeOf delivered).lines := by
    rw [hlog.firsts_eq]
    apply firsts_of_nodup
    · intro e _
      apply not_mem_nil
    · apply (storeOf_of delivered).nodup
  have hall := transcriptOf_storeOf h hdeep hnodup false now
    (s := createSession sessionId (cwdOf log) (options.maxTokens.getD 200000)
      (options.toolRegistrySnapshot.getD "") none none now) rfl (append_nil delivered).symm
  have htrans := hall.2
  rw [h.order] at htrans
  have hstart : transcriptOf (createSession sessionId (cwdOf log)
      (options.maxTokens.getD 200000) (options.toolRegistrySnapshot.getD "") none none now) =
      .empty := rfl
  rw [hstart, ← transcript] at htrans
  simp only [replaySessionState, hsnap, Option.bind_none, Option.getD_none, Option.isSome_none,
    transcriptOf, updateSession, foldl_replayLine, hfirsts, map_close_standing]
  rw [← htrans]
  simp only [transcriptOf, map_map]
  congr 1
  apply map_congr_left
  intro turn _
  apply standing_close

/-! ### What a replay does not depend on -/

/-- The lines that a replay passes over may as well be left out. -/
theorem foldl_firsts (base : Bool) (now : ℤ) (events : List StoredEvent) (p : Progress) :
  events.foldl (replayLine base now) p = (firsts p.seen events).foldl (replayLine base now) p
  := by
  induction events generalizing p with
  | nil => rfl
  | cons e events ih =>
  rw [foldl_cons, ih, firsts]
  by_cases hseen : p.seen.contains e.id
  · rw [replayLine, if_pos hseen, if_pos hseen]
  · rw [if_neg hseen, foldl_cons, replayLine, if_neg hseen]

/-- Copies of lines make nothing of the state, and are not reported. -/
theorem Copied.foldl_eq {log log' : List StoredEvent} (h : Copied log log') {p : Progress}
    (hp : p.seen = []) :
  log'.foldl (replayLine base now) p = log.foldl (replayLine base now) p
  := by
  rw [foldl_firsts, foldl_firsts _ _ log, hp, h.firsts_eq]

theorem lastSnapshot_append {past rest : List StoredEvent} {snapshot : StoredEvent}
    (hkind : snapshot.line.kind = .snapshot) (hrest : ∀ e ∈ rest, e.line.kind ≠ .snapshot) :
  lastSnapshot (past ++ snapshot :: rest) = some (snapshot, rest)
  := by
  induction past with
  | nil => rw [nil_append, lastSnapshot, lastSnapshot_eq_none hrest, if_pos hkind]
  | cons e past ih => rw [cons_append, lastSnapshot, ih]

/-- What stands before the last snapshot makes no difference to a replay if the snapshot can be
read, nor do lines after it that are written again. -/
theorem replay_of_snapshot {past past' rest rest' : List StoredEvent} {snapshot : StoredEvent}
    {state : SessionState} (hline : snapshot.line = .snapshot (some state))
    (hnone : ∀ e ∈ rest, e.line.kind ≠ .snapshot) (h : Copied rest rest') (sessionId : String)
    (options : ReplayOptions) (now : ℤ) :
  replaySessionState sessionId (past' ++ snapshot :: rest') options now =
    replaySessionState sessionId (past ++ snapshot :: rest) options now
  := by
  have hkind : snapshot.line.kind = .snapshot := by rw [hline, Line.kind]
  have hstate : snapshot.line.state = some state := by rw [hline, Line.state]
  have hnone' : ∀ e ∈ rest', e.line.kind ≠ .snapshot := fun e he => hnone e (h.mem he)
  simp only [replaySessionState, lastSnapshot_append hkind hnone, lastSnapshot_append hkind hnone',
    Option.bind_some, hstate, Option.getD_some, Option.isSome_some, Bool.true_or,
    h.foldl_eq]

/-- A line of a message. -/
def messageLine : StoredEvent where
  id := "message"
  sessionId := "session"
  turnId := none
  parentTurnId := none
  parentDepth := none
  time := 1
  line := .event (.messageAppended "m" .user [])

/-- A snapshot of a session that has just been made. -/
def snapshotLine : StoredEvent :=
  { messageLine with
    id := "snapshot"
    line := .snapshot (some (createSession "session" "/" 0 "" none none 0)) }

theorem replay_of_snapshot_messageLine :
  replaySessionState "session" ([messageLine] ++ snapshotLine :: [messageLine, messageLine])
      .default 2 =
    replaySessionState "session" ([] ++ snapshotLine :: [messageLine]) .default 2
  := by
  apply replay_of_snapshot rfl
  · intro e he
    rw [mem_singleton.mp he]
    nofun
  · exact @Copied.copy _ [messageLine] [] messageLine .refl mem_cons_self

end Core
