import VolundCode.Lib.Json
import VolundCode.Lib.Run
import Mathlib.Data.List.Chain

/-!
# The hub of sessions

An embedded hub listens to the bus of the session that the controller has activated and sends every
event in an envelope to its subscribers. When the controller activates a session it calls the
hub, which gives up its old listener and attaches a new one. The hub's own `start` and `resume` let
the controller activate a session and attach a listener once more, so that there are two.

Every event of the attached session is sent once, and no event of another one, in just those runs
in which the hub starts and resumes sessions only while it does not listen to activations
(`delivers_iff`). Cursors go up by one, but they start again whenever a session is attached.
-/

namespace SessionHub

open List

/-! ### The controller and the hub -/

/-- An interactive session: its id and its bus. -/
structure InteractiveSession where
  id : String
  bus : ℕ
  deriving DecidableEq, Repr

/-- What is in an envelope: an event of a session, the notice that a session was attached, or
another event of the view. -/
inductive Event where
  | core (event : Json)
  | attached (id : String)
  | view (event : Json)

structure WebEventEnvelope where
  cursor : ℕ
  sessionId : Option String
  event : Event

/-- The controller with the listeners to activations, the listeners of the hub with the buses they
are on, the hub, and the envelopes that were sent with the subscribers they were sent to. Buses and
listeners are numbered as they are made. -/
structure World where
  active : Option InteractiveSession
  activateListeners : List ℕ
  buses : ℕ
  listeners : List (ℕ × ℕ)
  made : ℕ
  interactive : Option InteractiveSession
  cursor : ℕ
  unsubscribeSession : Option ℕ
  unsubscribeActivate : Option ℕ
  subscribers : List ℕ
  sent : List (WebEventEnvelope × List ℕ)

/-- A controller without a session and an embedded hub. -/
def World.initial : World where
  active := none
  activateListeners := []
  buses := 0
  listeners := []
  made := 0
  interactive := none
  cursor := 0
  unsubscribeSession := none
  unsubscribeActivate := none
  subscribers := []
  sent := []

/-- `emit`. -/
def World.emit (w : World) (event : Event) : World :=
  { w with
    cursor := w.cursor + 1
    sent := w.sent ++ [(⟨w.cursor + 1, w.interactive.map (·.id), event⟩, w.subscribers)] }

/-- `attach`. -/
def World.attach (w : World) (session : InteractiveSession) : World :=
  { w with
    interactive := some session
    cursor := 0
    listeners := w.listeners ++ [(w.made, session.bus)]
    made := w.made + 1
    unsubscribeSession := some w.made }.emit (.attached session.id)

/-- `detach`. An embedded hub does not end the session, so that `closeActive` does the same. -/
def World.detach (w : World) : World :=
  { w with
    listeners := w.listeners.filter fun l => some l.1 ≠ w.unsubscribeSession
    unsubscribeSession := none
    interactive := none }

/-- An event is emitted on a bus: every listener of the hub on it sends an envelope. -/
def World.emitOn (w : World) (bus : ℕ) (event : Json) : World :=
  (w.listeners.filter fun l => l.2 = bus).foldl (fun w _ => w.emit (.core event)) w

/-- The listener to activations. -/
def World.reattach (w : World) (session : InteractiveSession) : World :=
  w.detach.attach session

/-- `publishActive`. -/
def World.publish (w : World) (session : InteractiveSession) : World :=
  w.activateListeners.foldl (fun w _ => w.reattach session) w

/-- The session that is activated next. -/
def World.next (w : World) (id : String) : InteractiveSession :=
  ⟨id, w.buses⟩

/-- `startInteractive` and `resumeInteractive` of the controller: a session with a new bus, on which
its first event is emitted. -/
def World.activate (w : World) (id : String) (started : Json) : World :=
  ({ w with active := some (w.next id), buses := w.buses + 1 }.emitOn w.buses started).publish
    (w.next id)

/-- `start` and `resume` of the hub, if no turn is in flight and the controller does not fail. -/
def World.open (w : World) (id : String) (started : Json) : World :=
  (w.detach.activate id started).attach (w.next id)

/-- `attachActive`. -/
def World.attachActive (w : World) : World :=
  let w := match w.active with
    | none => w
    | some session => w.reattach session
  { w with
    activateListeners := w.activateListeners ++ [w.made]
    made := w.made + 1
    unsubscribeActivate := some w.made }

/-- `dispose`. -/
def World.dispose (w : World) : World :=
  { w with
    activateListeners := w.activateListeners.filter fun l => some l ≠ w.unsubscribeActivate
    unsubscribeActivate := none }.detach

/-- `end` of the controller. -/
def World.endActive (w : World) (ended : Json) : World :=
  match w.active with
  | none => w
  | some session => { w.emitOn session.bus ended with active := none }

/-- What is done. A call of `start` or `resume` of the hub is refused while a turn is in flight, and
the controller may fail to activate the session. -/
inductive Action where
  | attachActive
  | dispose
  | closeActive
  | activate (id : String) (started : Json)
  | endActive (ended : Json)
  | start (turnInFlight : Bool) (session : Option (String × Json))
  | resume (turnInFlight : Bool) (id : String) (started : Option Json)
  | emitOn (bus : ℕ) (event : Json)
  | view (event : Json)
  | subscribe (s : ℕ)
  | unsubscribe (s : ℕ)

def World.step (w : World) : Action → World
  | .attachActive => w.attachActive
  | .dispose => w.dispose
  | .closeActive => w.detach
  | .activate id started => w.activate id started
  | .endActive ended => w.endActive ended
  | .start true _ => w
  | .start false none => w.detach
  | .start false (some (id, started)) => w.open id started
  | .resume true _ _ => w
  | .resume false _ none => w.detach
  | .resume false id (some started) => w.open id started
  | .emitOn bus event => w.emitOn bus event
  | .view event => w.emit (.view event)
  | .subscribe s =>
    { w with subscribers := if s ∈ w.subscribers then w.subscribers else w.subscribers ++ [s] }
  | .unsubscribe s => { w with subscribers := w.subscribers.filter (· ≠ s) }

/-- The state after a run. -/
def World.run (as : List Action) : World :=
  as.foldl World.step .initial

/-! ### What is claimed -/

/-- An event that a bus emits is sent to every subscriber in one envelope if the bus is the one of
the attached session, and is not sent if it is not. -/
def World.Delivers (w : World) : Prop :=
  ∀ bus event, (w.emitOn bus event).sent = w.sent ++
    if w.interactive.map (·.bus) = some bus then
      [(⟨w.cursor + 1, w.interactive.map (·.id), .core event⟩, w.subscribers)]
    else []

/-- The cursors of the envelopes that were sent. -/
def World.cursors (w : World) : List ℕ :=
  w.sent.map (·.1.cursor)

def World.Increasing (w : World) : Prop :=
  w.cursors.Pairwise (· < ·)

/-- The cursor of an envelope is the one after the cursor before, or the envelope tells that a
session was attached and its cursor is the first. -/
def Follows (before after : WebEventEnvelope × List ℕ) : Prop :=
  after.1.cursor = before.1.cursor + 1 ∨ after.1.cursor = 1 ∧ ∃ id, after.1.event = .attached id

/-- Cursors go up by one until a session is attached. -/
def World.Restarts (w : World) : Prop :=
  w.sent.IsChain Follows

/-- The hub starts or resumes a session. -/
def Action.opens : Action → Bool
  | .start false (some _) => true
  | .resume false _ (some _) => true
  | _ => false

/-- How often an action attaches a session. -/
def World.attachments (w : World) : Action → ℕ
  | .attachActive => if w.active.isSome then 1 else 0
  | .activate _ _ => w.activateListeners.length
  | .start false (some _) => w.activateListeners.length + 1
  | .resume false _ (some _) => w.activateListeners.length + 1
  | _ => 0

/-! ### The frames of the operations -/

section Frames

variable (w : World) (event : Event) (session : InteractiveSession)

/-- Envelopes of one event that are sent one after the other. -/
theorem foldl_emit {β : Type} (ls : List β) :
  ls.foldl (fun w _ => w.emit event) w =
    { w with
      cursor := w.cursor + ls.length
      sent := w.sent ++ (List.range' (w.cursor + 1) ls.length).map fun c =>
        (⟨c, w.interactive.map (·.id), event⟩, w.subscribers) }
  := by
  induction ls generalizing w with
  | nil => simp
  | cons l ls ih =>
    rw [foldl_cons, ih]
    simp [World.emit, range'_succ, Nat.add_assoc, Nat.add_comm 1]

/-- What a bus emits is sent as often as there are listeners on it. -/
theorem emitOn_eq (bus : ℕ) (event : Json) :
  w.emitOn bus event =
    { w with
      cursor := w.cursor + (w.listeners.filter fun l => l.2 = bus).length
      sent := w.sent ++ (List.range' (w.cursor + 1)
        (w.listeners.filter fun l => l.2 = bus).length).map fun c =>
          (⟨c, w.interactive.map (·.id), .core event⟩, w.subscribers) }
  := foldl_emit w (.core event) _

/-- A bus without listeners of the hub emits without anything being sent. -/
theorem emitOn_of_forall_ne {w : World} {bus : ℕ} (h : ∀ l ∈ w.listeners, l.2 ≠ bus)
    (event : Json) :
  w.emitOn bus event = w
  := by
  rw [World.emitOn, filter_eq_nil_iff.mpr]
  · rfl
  · intro l hl
    simpa using h l hl

@[simp] theorem emitOn_listeners (bus : ℕ) (event : Json) :
  (w.emitOn bus event).listeners = w.listeners
  := by
  rw [emitOn_eq]

@[simp] theorem emitOn_interactive (bus : ℕ) (event : Json) :
  (w.emitOn bus event).interactive = w.interactive
  := by
  rw [emitOn_eq]

@[simp] theorem emitOn_unsubscribeSession (bus : ℕ) (event : Json) :
  (w.emitOn bus event).unsubscribeSession = w.unsubscribeSession
  := by
  rw [emitOn_eq]

@[simp] theorem emitOn_buses (bus : ℕ) (event : Json) :
  (w.emitOn bus event).buses = w.buses
  := by
  rw [emitOn_eq]

@[simp] theorem emitOn_active (bus : ℕ) (event : Json) :
  (w.emitOn bus event).active = w.active
  := by
  rw [emitOn_eq]

@[simp] theorem emitOn_activateListeners (bus : ℕ) (event : Json) :
  (w.emitOn bus event).activateListeners = w.activateListeners
  := by
  rw [emitOn_eq]

end Frames

/-! ### One listener -/

/-- The hub listens to the session that is attached and to no other. -/
structure Settled (w : World) : Prop where
  none : w.interactive = none → w.listeners = []
  some : ∀ session, w.interactive = some session →
    ∃ t, w.listeners = [(t, session.bus)] ∧ w.unsubscribeSession = some t

variable {w : World}

theorem settled_emitOn (h : Settled w) (bus : ℕ) (event : Json) :
  Settled (w.emitOn bus event)
  := by
  constructor
  · simpa using h.none
  · simpa using h.some

/-- A hub that is settled listens to nothing once it is detached. -/
theorem detach_listeners (h : Settled w) :
  w.detach.listeners = []
  := by
  cases hi : w.interactive with
  | none => simp [World.detach, h.none hi]
  | some session =>
    obtain ⟨t, hl, ht⟩ := h.some session hi
    simp [World.detach, hl, ht]

theorem settled_detach (h : Settled w) :
  Settled w.detach
  := by
  constructor
  · intro _
    exact detach_listeners h
  · intro session hs
    cases hs

/-- A hub that listens to nothing is settled once it has attached a session. -/
theorem settled_attach (h : w.listeners = []) (session : InteractiveSession) :
  Settled (w.attach session)
  := by
  constructor
  · intro hs
    cases hs
  intro s hs
  obtain rfl : session = s := Option.some.inj hs
  use w.made
  simp [World.attach, World.emit, h]

theorem settled_reattach (h : Settled w) (session : InteractiveSession) :
  Settled (w.reattach session)
  := settled_attach (detach_listeners h) session

theorem settled_publish (h : Settled w) (session : InteractiveSession) :
  Settled (w.publish session)
  := by
  rw [World.publish]
  generalize w.activateListeners = ls
  induction ls generalizing w with
  | nil => exact h
  | cons l ls ih => exact ih (settled_reattach h session)

theorem settled_activate (h : Settled w) (id : String) (started : Json) :
  Settled (w.activate id started)
  := by
  apply settled_publish
  apply settled_emitOn
  exact ⟨h.none, h.some⟩

/-- If nothing listens to activations, the hub attaches the session that it opens once. -/
theorem settled_open (h : Settled w) (ha : w.activateListeners = []) (id : String)
    (started : Json) :
  Settled (w.open id started)
  := by
  apply settled_attach
  have hnone : w.detach.activateListeners = [] := ha
  simp [World.activate, World.publish, hnone, detach_listeners h]

/-- A step keeps the hub settled, unless it opens a session while the hub listens to activations. -/
theorem settled_step {a : Action} (h : Settled w) (ha : a.opens → w.activateListeners = []) :
  Settled (w.step a)
  := by
  cases a with
  | attachActive =>
    rw [World.step, World.attachActive]
    cases w.active with
    | none => exact ⟨h.none, h.some⟩
    | some session =>
      have hs := settled_reattach h session
      exact ⟨hs.none, hs.some⟩
  | dispose => exact settled_detach ⟨h.none, h.some⟩
  | closeActive => exact settled_detach h
  | activate id started => exact settled_activate h id started
  | endActive ended =>
    rw [World.step, World.endActive]
    cases w.active with
    | none => exact h
    | some session =>
      have hs := settled_emitOn h session.bus ended
      exact ⟨hs.none, hs.some⟩
  | start turnInFlight session =>
    cases turnInFlight with
    | true => exact h
    | false =>
      cases session with
      | none => exact settled_detach h
      | some session => exact settled_open h (ha rfl) session.1 session.2
  | resume turnInFlight id started =>
    cases turnInFlight with
    | true => exact h
    | false =>
      cases started with
      | none => exact settled_detach h
      | some started => exact settled_open h (ha rfl) id started
  | emitOn bus event => exact settled_emitOn h bus event
  | view event | subscribe s | unsubscribe s => exact ⟨h.none, h.some⟩

/-- A hub that is settled sends every event of the attached session once. -/
theorem delivers_of_settled (h : Settled w) :
  w.Delivers
  := by
  intro bus event
  rw [emitOn_eq]
  cases hi : w.interactive with
  | none => simp [h.none hi]
  | some session =>
    obtain ⟨t, hl, -⟩ := h.some session hi
    by_cases hb : session.bus = bus
    all_goals simp [hl, hb]

/-- The hub delivers only if there is one listener on the bus of the attached session. -/
theorem length_of_delivers {w : World} {session : InteractiveSession} (h : w.Delivers)
    (hi : w.interactive = some session) :
  (w.listeners.filter fun l => l.2 = session.bus).length = 1
  := by
  have hs := congrArg List.length (h session.bus .null)
  simpa [emitOn_eq, hi] using hs

/-- The last listener to an activation leaves a listener on the bus. -/
theorem mem_publish (h : w.activateListeners ≠ []) (session : InteractiveSession) :
  ∃ l ∈ (w.publish session).listeners, l.2 = session.bus
  := by
  rw [World.publish]
  generalize w.activateListeners = ls at h
  obtain ⟨ls, l, rfl⟩ := eq_nil_or_concat' ls |>.resolve_left h
  rw [foldl_append]
  generalize ls.foldl (fun w _ => w.reattach session) w = u
  use (u.detach.made, session.bus)
  simp [World.reattach, World.attach, World.emit]

/-- If the hub opens a session while it listens to activations, there are two listeners. -/
theorem not_delivers_open (h : w.activateListeners ≠ []) (id : String) (started : Json) :
  ¬ (w.open id started).Delivers
  := by
  intro hd
  have hone := @length_of_delivers _ (w.next id) hd rfl
  obtain ⟨l, hl, hb⟩ := mem_publish
    (w := { w.detach with active := some (w.next id), buses := w.buses + 1 }.emitOn w.buses started)
    (by simpa [World.detach] using h) (w.next id)
  have hlisteners : (w.open id started).listeners = (w.detach.activate id started).listeners ++
        [((w.detach.activate id started).made, (w.next id).bus)] := rfl
  rw [hlisteners, filter_append, length_append] at hone
  have hpos : 0 < ((w.detach.activate id started).listeners.filter
      fun l => l.2 = (w.next id).bus).length := by
    apply length_pos_of_mem (a := l)
    rw [mem_filter]
    exact ⟨hl, by simpa using hb⟩
  rw [filter_singleton, decide_eq_true rfl] at hone
  simp only [cond_true, length_singleton] at hone
  omega

/-! ### The cursors -/

/-- A property of the cursor and of what was sent, which sending an envelope and attaching a session
preserve, is preserved by every step. -/
theorem step_induction {P : World → Prop}
    (keep : ∀ w w' : World, w'.cursor = w.cursor → w'.sent = w.sent → P w → P w')
    (emit : ∀ w event, P w → P (w.emit event)) (attach : ∀ w session, P w → P (w.attach session))
    (h : P w) (a : Action) :
  P (w.step a)
  := by
  have hdetach {w : World} (h : P w) : P w.detach := keep w w.detach rfl rfl h
  have hreattach {w : World} (h : P w) (session : InteractiveSession) : P (w.reattach session) :=
    attach w.detach session (hdetach h)
  have hemitOn {w : World} (h : P w) (bus : ℕ) (event : Json) : P (w.emitOn bus event) := by
    rw [World.emitOn]
    generalize w.listeners.filter _ = ls
    induction ls generalizing w with
    | nil => exact h
    | cons l ls ih => exact ih (emit w (.core event) h)
  have hpublish {w : World} (h : P w) (session : InteractiveSession) : P (w.publish session) := by
    rw [World.publish]
    generalize w.activateListeners = ls
    induction ls generalizing w with
    | nil => exact h
    | cons l ls ih => exact ih (hreattach h session)
  have hactivate {w : World} (h : P w) (id : String) (started : Json) :
      P (w.activate id started) := by
    apply hpublish
    apply hemitOn
    exact keep w _ rfl rfl h
  have hopen {w : World} (h : P w) (id : String) (started : Json) : P (w.open id started) :=
    attach _ _ (hactivate (hdetach h) id started)
  cases a with
  | attachActive =>
    rw [World.step, World.attachActive]
    cases w.active with
    | none => exact keep w _ rfl rfl h
    | some session => exact keep (w.reattach session) _ rfl rfl (hreattach h session)
  | dispose => exact hdetach (keep w _ rfl rfl h)
  | closeActive => exact hdetach h
  | activate id started => exact hactivate h id started
  | endActive ended =>
    rw [World.step, World.endActive]
    cases w.active with
    | none => exact h
    | some session =>
      exact keep (w.emitOn session.bus ended) _ rfl rfl (hemitOn h session.bus ended)
  | start turnInFlight session =>
    cases turnInFlight with
    | true => exact h
    | false =>
      cases session with
      | none => exact hdetach h
      | some session => exact hopen h session.1 session.2
  | resume turnInFlight id started =>
    cases turnInFlight with
    | true => exact h
    | false =>
      cases started with
      | none => exact hdetach h
      | some started => exact hopen h id started
  | emitOn bus event => exact hemitOn h bus event
  | view event => exact emit w (.view event) h
  | subscribe s | unsubscribe s => exact keep w _ rfl rfl h

/-- Cursors follow one another, the first is at least one and the last is the one of the hub. -/
structure Trail (w : World) : Prop where
  chain : w.Restarts
  last : ∀ e ∈ w.sent.getLast?, e.1.cursor = w.cursor
  positive : ∀ c ∈ w.cursors, 1 ≤ c

/-- An envelope that follows the last one can be sent. -/
theorem trail_send {w' : World} {e : WebEventEnvelope × List ℕ} (h : Trail w)
    (hsent : w'.sent = w.sent ++ [e]) (hlast : e.1.cursor = w'.cursor) (hone : 1 ≤ e.1.cursor)
    (hfollows : ∀ last ∈ w.sent.getLast?, Follows last e) :
  Trail w'
  := by
  constructor
  · rw [World.Restarts, hsent, isChain_append]
    use h.chain, isChain_singleton e
    intro last hl first hf
    obtain rfl : e = first := by simpa using hf
    exact hfollows last hl
  · intro last hl
    rw [hsent, List.getLast?_concat] at hl
    cases hl
    exact hlast
  intro c hc
  rw [World.cursors, hsent, map_append, mem_append] at hc
  obtain hc | hc := hc
  · exact h.positive c hc
  · obtain rfl : c = e.1.cursor := by simpa using hc
    exact hone

theorem trail_step (h : Trail w) (a : Action) :
  Trail (w.step a)
  := by
  apply step_induction _ _ _ h a
  · intro w w' hc hs h
    constructor
    · rw [World.Restarts, hs]
      exact h.chain
    · rw [hs, hc]
      exact h.last
    · rw [World.cursors, hs]
      exact h.positive
  · intro w event h
    apply trail_send h rfl rfl (Nat.le_add_left 1 w.cursor)
    intro last hl
    left
    rw [h.last last hl]
  intro w session h
  apply trail_send h rfl rfl (Nat.le_refl 1)
  intro last _
  right
  exact ⟨rfl, session.id, rfl⟩

theorem trail_run (as : List Action) :
  Trail (World.run as)
  := by
  apply Run.run_invariant (I := Trail) _ _ (Run.run_some World.step .initial as)
  · intro w a w' h hw
    cases hw
    exact trail_step h a
  · exact ⟨isChain_nil, by simp [World.initial], by simp [World.initial, World.cursors]⟩

/-- As long as cursors go up, none is above the one of the hub. -/
theorem le_cursor (h : Trail w) (hinc : w.Increasing) :
  ∀ c ∈ w.cursors, c ≤ w.cursor
  := by
  intro c hc
  obtain hs | ⟨es, e, hs⟩ := eq_nil_or_concat' w.sent
  · simp [World.cursors, hs] at hc
  have hlast : e.1.cursor = w.cursor := h.last e (by simp [hs])
  rw [World.Increasing, World.cursors, hs, map_append, pairwise_append] at hinc
  rw [World.cursors, hs, map_append, mem_append] at hc
  obtain hc | hc := hc
  · rw [← hlast]
    exact (hinc.2.2 c hc e.1.cursor (by simp)).le
  · obtain rfl : c = e.1.cursor := by simpa using hc
    rw [hlast]

/-! ### How often a step attaches -/

/-- The buses that the hub listens to and the one of the active session have been made. -/
structure Made (w : World) : Prop where
  listeners : ∀ l ∈ w.listeners, l.2 < w.buses
  active : ∀ session ∈ w.active, session.bus < w.buses

theorem made_emitOn (h : Made w) (bus : ℕ) (event : Json) :
  Made (w.emitOn bus event)
  := by
  constructor
  · simpa using h.listeners
  · simpa using h.active

theorem made_detach (h : Made w) :
  Made w.detach
  := by
  constructor
  · intro l hl
    exact h.listeners l (mem_of_mem_filter hl)
  · exact h.active

theorem made_attach (h : Made w) {session : InteractiveSession} (hb : session.bus < w.buses) :
  Made (w.attach session)
  := by
  constructor
  · intro l hl
    obtain hl | hl := mem_append.mp hl
    · exact h.listeners l hl
    · obtain rfl := mem_singleton.mp hl
      exact hb
  · exact h.active

theorem made_publish (h : Made w) {session : InteractiveSession} (hb : session.bus < w.buses) :
  Made (w.publish session)
  := by
  rw [World.publish]
  generalize w.activateListeners = ls
  induction ls generalizing w with
  | nil => exact h
  | cons l ls ih => exact ih (made_attach (made_detach h) hb) hb

/-- The session that is activated next has a bus that is new. -/
theorem made_next (h : Made w) (id : String) :
  Made { w with active := some (w.next id), buses := w.buses + 1 }
  := by
  constructor
  · intro l hl
    exact Nat.lt_succ_of_lt (h.listeners l hl)
  · intro session hs
    cases hs
    exact Nat.lt_succ_self w.buses

@[simp] theorem publish_buses (w : World) (session : InteractiveSession) :
  (w.publish session).buses = w.buses
  := by
  rw [World.publish]
  generalize w.activateListeners = ls
  induction ls generalizing w with
  | nil => rfl
  | cons l ls ih => exact ih (w.reattach session)

theorem made_activate (h : Made w) (id : String) (started : Json) :
  Made (w.activate id started)
  := by
  apply made_publish
  · exact made_emitOn (made_next h id) w.buses started
  · rw [emitOn_buses]
    exact Nat.lt_succ_self w.buses

theorem made_open (h : Made w) (id : String) (started : Json) :
  Made (w.open id started)
  := by
  apply made_attach (made_activate (made_detach h) id started)
  rw [World.activate, publish_buses, emitOn_buses]
  exact Nat.lt_succ_self w.buses

theorem made_step (h : Made w) (a : Action) :
  Made (w.step a)
  := by
  cases a with
  | attachActive =>
    rw [World.step, World.attachActive]
    cases ha : w.active with
    | none => exact ⟨h.listeners, by simp [ha]⟩
    | some session =>
      have hs := made_attach (made_detach h) (h.active session ha)
      exact ⟨hs.listeners, hs.active⟩
  | dispose => exact made_detach ⟨h.listeners, h.active⟩
  | closeActive => exact made_detach h
  | activate id started => exact made_activate h id started
  | endActive ended =>
    rw [World.step, World.endActive]
    cases w.active with
    | none => exact h
    | some session =>
      have hs := made_emitOn h session.bus ended
      exact ⟨hs.listeners, by simp⟩
  | start turnInFlight session =>
    cases turnInFlight with
    | true => exact h
    | false =>
      cases session with
      | none => exact made_detach h
      | some session => exact made_open h session.1 session.2
  | resume turnInFlight id started =>
    cases turnInFlight with
    | true => exact h
    | false =>
      cases started with
      | none => exact made_detach h
      | some started => exact made_open h id started
  | emitOn bus event => exact made_emitOn h bus event
  | view event | subscribe s | unsubscribe s => exact ⟨h.listeners, h.active⟩

theorem made_run (as : List Action) :
  Made (World.run as)
  := by
  apply Run.run_invariant (I := Made) _ _ (Run.run_some World.step .initial as)
  · intro w a w' h hw
    cases hw
    exact made_step h a
  · exact ⟨by simp [World.initial], by simp [World.initial]⟩

/-- What a bus emits is sent with the cursors that come next. -/
theorem emitOn_cursors (w : World) (bus : ℕ) (event : Json) :
  ∃ k, (w.emitOn bus event).cursors = w.cursors ++ List.range' (w.cursor + 1) k
  := by
  use (w.listeners.filter fun l => l.2 = bus).length
  rw [emitOn_eq, World.cursors, World.cursors, map_append, map_map]
  congr 1
  exact map_id _

theorem attach_cursors (w : World) (session : InteractiveSession) :
  (w.attach session).cursors = w.cursors ++ [1]
  := map_append

/-- Every listener to activations attaches the session. -/
theorem publish_cursors (w : World) (session : InteractiveSession) :
  (w.publish session).cursors = w.cursors ++ List.replicate w.activateListeners.length 1
  := by
  rw [World.publish]
  generalize w.activateListeners = ls
  induction ls generalizing w with
  | nil => simp
  | cons l ls ih =>
    rw [foldl_cons, ih, World.reattach, attach_cursors, append_assoc, length_cons, replicate_succ]
    rfl

/-- The first event of a session is not sent, as nothing listens to its bus. -/
theorem activate_cursors (h : Made w) (id : String) (started : Json) :
  (w.activate id started).cursors = w.cursors ++ List.replicate w.activateListeners.length 1
  := by
  rw [World.activate, emitOn_of_forall_ne, publish_cursors]
  · rfl
  · intro l hl
    exact (h.listeners l hl).ne

theorem open_cursors (h : Made w) (id : String) (started : Json) :
  (w.open id started).cursors = w.cursors ++ List.replicate (w.activateListeners.length + 1) 1
  := by
  rw [World.open, attach_cursors, activate_cursors (made_detach h), append_assoc, replicate_succ']
  rfl

/-- A step attaches sessions or sends events, or it does neither. -/
theorem step_cursors (h : Made w) (a : Action) :
  ∃ k, (w.attachments a = 0 ∨ k = 0) ∧ (w.step a).cursors =
    w.cursors ++ (List.replicate (w.attachments a) 1 ++ List.range' (w.cursor + 1) k)
  := by
  have hnil : w.cursors = w.cursors ++ (List.replicate 0 1 ++ List.range' (w.cursor + 1) 0) :=
    (append_nil w.cursors).symm
  have hopen (id : String) (started : Json) : (w.open id started).cursors = w.cursors ++
      (List.replicate (w.activateListeners.length + 1) 1 ++ List.range' (w.cursor + 1) 0) := by
    rw [open_cursors h, range'_zero, append_nil]
  cases a with
  | attachActive =>
    use 0, Or.inr rfl
    rw [World.step, World.attachActive, World.attachments]
    cases w.active with
    | none => exact hnil
    | some session => exact attach_cursors w.detach session
  | dispose | closeActive => exact ⟨0, Or.inr rfl, hnil⟩
  | activate id started =>
    use 0, Or.inr rfl
    rw [range'_zero, append_nil]
    exact activate_cursors h id started
  | endActive ended =>
    rw [World.step, World.endActive]
    cases w.active with
    | none => exact ⟨0, Or.inr rfl, hnil⟩
    | some session =>
      obtain ⟨k, hk⟩ := emitOn_cursors w session.bus ended
      exact ⟨k, Or.inl rfl, hk⟩
  | start turnInFlight session =>
    cases turnInFlight with
    | true => exact ⟨0, Or.inr rfl, hnil⟩
    | false =>
      cases session with
      | none => exact ⟨0, Or.inr rfl, hnil⟩
      | some session => exact ⟨0, Or.inr rfl, hopen session.1 session.2⟩
  | resume turnInFlight id started =>
    cases turnInFlight with
    | true => exact ⟨0, Or.inr rfl, hnil⟩
    | false =>
      cases started with
      | none => exact ⟨0, Or.inr rfl, hnil⟩
      | some started => exact ⟨0, Or.inr rfl, hopen id started⟩
  | emitOn bus event =>
    obtain ⟨k, hk⟩ := emitOn_cursors w bus event
    exact ⟨k, Or.inl rfl, hk⟩
  | view event => exact ⟨1, Or.inl rfl, map_append⟩
  | subscribe s | unsubscribe s => exact ⟨0, Or.inr rfl, hnil⟩

/-- Cursors still go up after a step if they did before and it attaches nothing, or attaches one
session before anything was sent. -/
theorem increasing_step (ht : Trail w) (hm : Made w) (a : Action) :
  (w.step a).Increasing ↔ w.Increasing ∧ (w.attachments a = 0 ∨ w.sent = [] ∧ w.attachments a = 1)
  := by
  obtain ⟨k, hk, hcurs⟩ := step_cursors hm a
  rw [World.Increasing, hcurs, pairwise_append]
  constructor
  · intro ⟨hinc, hnew, hlt⟩
    use hinc
    rw [pairwise_append] at hnew
    obtain hn | hn := Nat.eq_zero_or_pos (w.attachments a)
    · exact Or.inl hn
    right
    constructor
    · apply eq_nil_of_map_eq_nil (f := fun e => e.1.cursor)
      rw [eq_nil_iff_forall_not_mem]
      intro c hc
      have hone : 1 ∈ List.replicate (w.attachments a) 1 ++ List.range' (w.cursor + 1) k := by
        simp [hn.ne']
      exact absurd (hlt c hc 1 hone) (ht.positive c hc).not_gt
    · have hle := pairwise_replicate.mp hnew.1
      omega
  intro ⟨hinc, hn⟩
  use hinc
  obtain hn | ⟨hs, hn⟩ := hn
  · rw [hn, replicate_zero, nil_append]
    use pairwise_lt_range'
    intro c hc d hd
    have hle := le_cursor ht hinc c hc
    have hd := (mem_range'_1.mp hd).1
    omega
  · obtain rfl : k = 0 := by omega
    simp [hn, World.cursors, hs]

/-! ### The result -/

theorem settled_initial :
  Settled .initial
  := by
  constructor
  · intro _
    rfl
  · intro session hs
    cases hs

theorem increasing_of_append (past rest : List Action) (h : (World.run (past ++ rest)).Increasing) :
  (World.run past).Increasing
  := by
  induction rest using List.reverseRecOn with
  | nil => simpa using h
  | append_singleton rest a ih =>
    rw [← append_assoc, World.run, foldl_concat] at h
    apply ih
    exact ((increasing_step (trail_run _) (made_run _) a).mp h).1

/-- In every state of a run each event of the attached session is sent once, and no event of another
one, if and only if the hub opens sessions only while it does not listen to activations. The cursors
of the whole run go up if and only if nothing but the first envelope is sent when a session is
attached. In every run they go up by one, or a session is attached and they start again. -/
theorem delivers_iff (as : List Action) :
  ((∀ past rest, as = past ++ rest → (World.run past).Delivers) ↔
      ∀ past a rest, as = past ++ a :: rest → a.opens → (World.run past).activateListeners = []) ∧
    ((World.run as).Increasing ↔ ∀ past a rest, as = past ++ a :: rest →
      (World.run past).attachments a = 0 ∨
        (World.run past).sent = [] ∧ (World.run past).attachments a = 1) ∧
    (World.run as).Restarts
  := by
  refine ⟨⟨?_, ?_⟩, ⟨?_, ?_⟩, (trail_run as).chain⟩
  · intro h past a rest has hopens
    by_contra hlisten
    have hd := h (past ++ [a]) rest (by simp [has])
    rw [World.run, foldl_concat] at hd
    cases a with
    | start turnInFlight session =>
      cases turnInFlight with
      | true => cases hopens
      | false =>
        cases session with
        | none => cases hopens
        | some session => exact not_delivers_open hlisten session.1 session.2 hd
    | resume turnInFlight id started =>
      cases turnInFlight with
      | true => cases hopens
      | false =>
        cases started with
        | none => cases hopens
        | some started => exact not_delivers_open hlisten id started hd
    | attachActive | dispose | closeActive | activate | endActive | emitOn | view | subscribe
    | unsubscribe => cases hopens
  · intro h past rest has
    apply delivers_of_settled
    apply Run.Guarded.invariant (I := Settled) _ settled_initial _
      (Run.run_some World.step .initial past)
    · exact fun w a => a.opens → w.activateListeners = []
    · intro w a w' hw ha hstep
      cases hstep
      exact settled_step hw ha
    · rw [Run.guarded_some_iff]
      intro before a after hpast
      exact h before a (after ++ rest) (by simp [has, hpast])
  · intro h past a rest has
    have hinc := increasing_of_append (past ++ [a]) rest (by simpa [has] using h)
    rw [World.run, foldl_concat] at hinc
    exact ((increasing_step (trail_run past) (made_run past) a).mp hinc).2
  intro h
  induction as using List.reverseRecOn with
  | nil => exact List.Pairwise.nil
  | append_singleton as a ih =>
  rw [World.run, foldl_concat]
  apply (increasing_step (trail_run as) (made_run as) a).mpr
  constructor
  · apply ih
    intro past b rest has
    exact h past b (rest ++ [a]) (by simp [has])
  · exact h as a [] rfl

/-- The hub listens to activations and starts a session: the controller calls it back, and it
attaches the session a second time. An event of the session is sent twice. -/
theorem not_delivers :
  ¬ (World.run [.attachActive, .subscribe 0, .start false (some ("s", .null))]).Delivers ∧
    ((World.run [.attachActive, .subscribe 0, .start false (some ("s", .null)),
        .emitOn 0 .null]).sent.map fun e => (e.1.cursor, e.2)) =
      [(1, [0]), (1, [0]), (2, [0]), (3, [0])]
  := by
  constructor
  · apply not_delivers_open
    simp [World.step, World.attachActive, World.initial]
  · rfl

end SessionHub
