import VolundCode.Lib.Ecma
import VolundCode.Lib.Json

/-!
# What a hub sends to a client

A hub sends the events of a session to its clients, each in an envelope: the events of the core,
whose payloads have been checked, and events that are made for the view. A client keeps what it
shows of them, among it whether a turn is running, whether it was interrupted, and a card with a
status for every tool call. Here are the envelopes and the lists of cards.
-/

namespace Client

open List

/-! ### Envelopes -/

/-- Who has written a message. -/
inductive Role where
  | assistant
  | system
  | user
  deriving DecidableEq

/-- A part of a message. An image may refer to its bytes by a handle. -/
inductive ContentPart where
  | text (text : String)
  | thinking (text : String)
  | image (handle : Option String)
  | other
  deriving DecidableEq

inductive DeltaKind where
  | text
  | thinking
  | toolUse
  deriving DecidableEq

inductive AbortReason where
  | userInterrupt
  | error
  | streamInterrupted
  deriving DecidableEq

inductive PermissionMode where
  | ask
  | auto
  | full
  deriving DecidableEq

/-- An event of the core or of the view. The queue of the requests that are pending is told whole,
and its head as well; a mode that is none is unknown. The others change nothing that is shown. -/
inductive Event where
  | messageAppended (messageId : String) (role : Role) (content : List ContentPart)
  | streamStarted (messageId : String)
  | streamDelta (messageId : String) (kind : DeltaKind) (fragment : String)
  | streamCompleted (messageId : String)
  | turnStarted
  | turnCompleted (usage : Json)
  | turnAborted (reason : AbortReason)
  | toolRequested (toolUseId tool : String) (input : Json)
  | toolStarted (toolUseId tool : String)
  | toolCompleted (toolUseId : String) (isError : Bool) (linesAdded linesRemoved : Option ℕ)
  | errorRaised (code : String) (message reason : Option String)
  | turnFailed (message : Option String)
  | permissionRequest (request : Option Json) (requests : List Json) (expiresAt : Option ℕ)
  | permissionResolved
  | askRequest (request : Option Json) (requests : List Json) (expiresAt : Option ℕ)
  | askResolved
  | permissionMode (mode : Option PermissionMode)
  | sessionAttached
  | machineOffline
  | machineOnline
  | other

inductive Kind where
  | core
  | view
  deriving DecidableEq

/-- An envelope. An event that a subagent has forwarded has the turn that it belongs to and its
depth. -/
structure Envelope where
  cursor : ℕ
  kind : Kind
  event : Event
  turnId : Option String
  parentTurnId : Option String
  parentDepth : Option ℕ

/-- The event was forwarded by a subagent. -/
def Envelope.forwarded (e : Envelope) : Bool :=
  e.parentTurnId.isSome || decide (0 < e.parentDepth.getD 0)

/-- The card of a request that is pending, and when it expires. -/
structure PendingCard where
  card : Json
  expiresAt : Option ℕ

/-- `textOfContent`. -/
def textOfContent (content : List ContentPart) : String :=
  String.join (content.map fun part =>
    match part with
    | .text text => text
    | _ => "")

/-- `thinkingOfContent`. -/
def thinkingOfContent (content : List ContentPart) : String :=
  String.join (content.map fun part =>
    match part with
    | .thinking text => text
    | _ => "")

/-- `imagesOfContent`: the handles. -/
def imagesOfContent (content : List ContentPart) : List String :=
  content.filterMap fun part =>
    match part with
    | .image handle => handle
    | _ => none

/-! ### What a client shows -/

inductive Turn where
  | idle
  | running
  deriving DecidableEq

/-- The status of a tool call. -/
inductive Status where
  | running
  | done
  | error
  deriving DecidableEq

/-- The status of a call when its turn ends. -/
def Status.settle : Status → Status
  | .running => .error
  | status => status

/-- A call that is not running keeps its status. -/
theorem Status.settle_of_ne {status : Status} (h : status ≠ .running) :
  status.settle = status
  := by
  cases status with
  | running => exact absurd rfl h
  | done | error => rfl

/-- What an event says of a tool call. -/
inductive Signal where
  | requested (tool : String)
  | started
  | completed (isError : Bool)
  | ended
  | silent
  deriving DecidableEq

/-- What an envelope says of the call with an id. When a turn ends, it says so of every call. -/
def Envelope.signal (e : Envelope) (id : String) : Signal :=
  if e.forwarded then .silent
  else
    match e.event with
    | .toolRequested id' tool _ => if id' = id then .requested tool else .silent
    | .toolStarted id' _ => if id' = id then .started else .silent
    | .toolCompleted id' isError _ _ => if id' = id then .completed isError else .silent
    | .turnCompleted _ => .ended
    | .turnAborted _ => .ended
    | .turnFailed _ => if e.kind = .view then .ended else .silent
    | _ => .silent

/-- Whether a turn is running after an envelope. -/
def Envelope.turn (e : Envelope) (turn : Turn) : Turn :=
  if e.forwarded then turn
  else
    match e.event with
    | .turnStarted => .running
    | .turnCompleted _ => .idle
    | .turnAborted _ => .idle
    | .turnFailed _ => if e.kind = .view then .idle else turn
    | _ => turn

/-- Whether the turn was interrupted after an envelope. -/
def Envelope.interrupted (e : Envelope) (interrupted : Bool) : Bool :=
  if e.forwarded then interrupted
  else
    match e.event with
    | .turnStarted => false
    | .turnAborted .userInterrupt => true
    | _ => interrupted

/-- The envelope says that the client is attached to a session. -/
def Envelope.attaches (e : Envelope) : Prop :=
  e.kind = .view ∧ e.event = .sessionAttached

/-- `taskSummaryOf`. -/
structure TaskSummary where
  agentType : Option String
  prompt : Option String
  deriving DecidableEq

/-- The texts that a client makes of the input of a tool, of which nothing else depends, and those of
its notices. The target of a tool of an MCP server is `none`. -/
structure Texts where
  toolTargetLabel : String → Json → Option String
  toolBodyLabel : String → Json → Option String
  taskSummaryOf : Json → Option TaskSummary
  attachedNotice : String
  machineOfflineNotice : String

/-- A client that makes no texts of inputs. -/
def noTexts : Texts where
  toolTargetLabel _ _ := none
  toolBodyLabel _ _ := none
  taskSummaryOf _ := none
  attachedNotice := ""
  machineOfflineNotice := ""

/-- An event of the core that no subagent has forwarded. -/
def Envelope.ofCore (event : Event) : Envelope where
  cursor := 0
  kind := .core
  event := event
  turnId := none
  parentTurnId := none
  parentDepth := none

/-- An event of the core attaches to nothing. -/
theorem not_attaches_ofCore (event : Event) :
  ¬ (Envelope.ofCore event).attaches
  := by
  rintro ⟨hkind, -⟩
  exact Kind.noConfusion hkind

/-! ### Lists of cards -/

/-- Nothing with an id is known. -/
theorem ne_of_not_any {α : Type} {key : α → String} {xs : List α} {id : String}
    (h : ¬ (xs.any fun x => key x = id)) :
  ∀ x ∈ xs, key x ≠ id
  := by
  intro x hx hid
  apply h (any_eq_true.mpr ⟨x, hx, decide_eq_true hid⟩)

/-- A change of elements that keeps their keys. -/
theorem map_key {α β : Type} {key : α → β} {f : α → α} {xs : List α} (hf : ∀ x, key (f x) = key x) :
  (xs.map f).map key = xs.map key
  := by
  rw [map_map]
  apply map_congr_left
  exact fun x _ => hf x

section Cards

variable {C : Type} (key : C → String) (status : C → Status)

/-- The status of the first card with an id. -/
def statusOf (cards : List C) (id : String) : Option Status :=
  (cards.find? fun c => key c = id).map status

variable {id : String} {cards : List C}

/-- The ids of the cards. -/
theorem statusOf_eq_none :
  statusOf key status cards id = none ↔ id ∉ cards.map key
  := by
  simp only [statusOf, Option.map_eq_none_iff, List.find?_eq_none, decide_eq_true_eq, mem_map,
    not_exists, not_and]

/-- If the ids of the cards are different, the status of a card is that of its id. -/
theorem statusOf_of_mem (h : (cards.map key).Nodup) {c : C} (hc : c ∈ cards) :
  statusOf key status cards (key c) = some (status c)
  := by
  induction cards with
  | nil => exact absurd hc not_mem_nil
  | cons d cards ih =>
  rw [map_cons, nodup_cons] at h
  rcases mem_cons.mp hc with rfl | hc
  · simp [statusOf]
  have hne : key d ≠ key c := by
    intro heq
    apply h.1
    rw [heq]
    exact mem_map_of_mem hc
  simp only [statusOf, List.find?_cons, decide_eq_false hne]
  exact ih h.2 hc

variable {f : C → C}

/-- The cards with an id are changed. -/
theorem statusOf_update {g : Status → Status}
    (hf : ∀ c, key (f c) = key c) (hg : ∀ c, status (f c) = g (status c)) (id' : String) :
  statusOf key status (cards.map fun c => if key c = id then f c else c) id' =
    if id = id' then (statusOf key status cards id').map g else statusOf key status cards id'
  := by
  induction cards with
  | nil => simp [statusOf]
  | cons c cards ih =>
  by_cases hc : key c = id'
  · by_cases hid : id = id'
    · simp [statusOf, hc, hf, hg, hid]
    · have hne : id' ≠ id := Ne.symm hid
      simp [statusOf, hc, hid, hne]
  have hkey : key (if key c = id then f c else c) = key c := by
    split_ifs
    · exact hf c
    · rfl
  simp only [statusOf, map_cons, List.find?_cons, hkey, decide_eq_false hc] at ih ⊢
  exact ih

/-- A card is added. -/
theorem statusOf_append {c : C} (id : String) :
  statusOf key status (cards ++ [c]) id =
    (statusOf key status cards id).or (if key c = id then some (status c) else none)
  := by
  simp only [statusOf, List.find?_append]
  cases cards.find? fun c => key c = id with
  | some d => rfl
  | none =>
    by_cases hc : key c = id
    all_goals simp [hc]

/-- The status of every card is changed in the same way. -/
theorem statusOf_map {g : Status → Status}
    (hf : ∀ c, key (f c) = key c) (hg : ∀ c, status (f c) = g (status c)) (id : String) :
  statusOf key status (cards.map f) id = (statusOf key status cards id).map g
  := by
  induction cards with
  | nil => rfl
  | cons c cards ih =>
  by_cases hc : key c = id
  · simp [statusOf, hf, hg, hc]
  · simp only [statusOf, map_cons, List.find?_cons, hf, decide_eq_false hc] at ih ⊢
    exact ih

/-- Cards without a change that changes none of them. -/
theorem map_of_any {p : C → Bool} (hf : ∀ c, p c = false → f c = c) :
  (if cards.any p then cards.map f else cards) = cards.map f
  := by
  split_ifs with hany
  · rfl
  have hid : ∀ c ∈ cards, f c = id c := by
    intro c hc
    rw [hf, id]
    by_contra hp
    exact hany (any_eq_true.mpr ⟨c, hc, by simpa using hp⟩)
  rw [map_congr_left hid, map_id]

/-- A card is known when it has a status. -/
theorem any_eq (cards : List C) (id : String) :
  (cards.any fun c => key c = id) = (statusOf key status cards id).isSome
  := by
  rw [statusOf, Option.isSome_map, Bool.eq_iff_iff]
  simp [List.find?_isSome]

/-- The cards with an id are changed if there are some, and else a card is added. -/
theorem statusOf_upsert {g : Status → Status} {card : C}
    (hcard : key card = id) (hf : ∀ c, key (f c) = key c) (hg : ∀ c, status (f c) = g (status c))
    (id' : String) :
  statusOf key status
      (if cards.any fun c => key c = id then cards.map fun c => if key c = id then f c else c
        else cards ++ [card]) id' =
    if id = id' then some ((statusOf key status cards id).elim (status card) g)
    else statusOf key status cards id'
  := by
  rw [any_eq key status]
  cases hid : statusOf key status cards id with
  | none =>
    simp only [Option.isSome_none, Bool.false_eq_true, if_false, Option.elim_none]
    rw [statusOf_append, hcard]
    by_cases hsame : id = id'
    · rw [if_pos hsame, if_pos hsame, ← hsame, hid, Option.none_or]
    · rw [if_neg hsame, if_neg hsame, Option.or_none]
  | some old =>
  simp only [Option.isSome_some, if_true, Option.elim_some]
  rw [statusOf_update key status hf hg]
  by_cases hsame : id = id'
  · rw [if_pos hsame, if_pos hsame, ← hsame, hid, Option.map_some]
  · rw [if_neg hsame, if_neg hsame]

/-- A card that is changed keeps its id. -/
theorem nodup_map (h : (cards.map key).Nodup) (hf : ∀ c, key (f c) = key c) :
  ((cards.map f).map key).Nodup
  := by
  rw [map_key hf]
  exact h

/-- A card that is added has an id of its own. -/
theorem nodup_upsert (h : (cards.map key).Nodup)
    {card : C} (hcard : key card = id) (hf : ∀ c, key (f c) = key c) :
  ((if cards.any fun c => key c = id then cards.map fun c => if key c = id then f c else c
    else cards ++ [card]).map key).Nodup
  := by
  split_ifs with hid
  · apply nodup_map key h
    intro c
    split_ifs
    · exact hf c
    · rfl
  have hnot : id ∉ cards.map key := by
    rintro hmem
    obtain ⟨c, hc, hkey⟩ := mem_map.mp hmem
    exact ne_of_not_any hid c hc hkey
  rw [map_append, map_singleton, hcard, nodup_append_comm, singleton_append, nodup_cons]
  exact ⟨hnot, h⟩

end Cards

end Client
