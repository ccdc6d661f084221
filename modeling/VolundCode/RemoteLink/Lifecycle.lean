import VolundCode.Lib.Run
import Mathlib.Tactic

/-!
# The lifecycle of the remote link

`start` begins a loop that dials the gateway, waits until the socket closes and dials again. `stop`
only tells the loop that it should end: it goes on until whatever it waits for has happened.

If the link is started only when the old loop has ended, and stopped only when its loop waits
neither for a token nor for a socket that has not opened, there is at most one loop and one socket,
and a link that was stopped stays off and opens no socket (`orderly_of_settled`). Otherwise it may
not (`not_orderly`).
-/

namespace RemoteLink

open List

/-! ### The link -/

inductive RemoteLinkState where
  | off
  | connecting
  | online
  deriving DecidableEq, Repr

/-- What a dial loop waits for: the token, the promise of `connect` with its socket, that it goes on
after the promise was resolved or rejected, or a timer. -/
inductive Dial where
  | token
  | connect (socket : ℕ)
  | resolved
  | rejected
  | delay
  deriving DecidableEq, Repr

/-- A socket: whether it has opened, whether its close was handled, and whether the link has called
its `close`. -/
structure UplinkSocket where
  opened : Bool
  settled : Bool
  closing : Bool
  deriving DecidableEq, Repr

/-- A socket of which nothing has been heard. -/
def UplinkSocket.created : UplinkSocket where
  opened := false
  settled := false
  closing := false

/-- The link, with the loops that have not ended, the calls of `stop` that wait for the socket, and
the sockets that were created. -/
structure Link where
  running : Bool
  state : RemoteLinkState
  replacedByPeer : Bool
  socket : Option ℕ
  socketClosed : Bool
  loops : List Dial
  stops : ℕ
  sockets : List UplinkSocket
  deriving DecidableEq, Repr

def Link.initial : Link where
  running := false
  state := .off
  replacedByPeer := false
  socket := none
  socketClosed := false
  loops := []
  stops := 0
  sockets := []

/-- `setState`. -/
def Link.setState (w : Link) (state : RemoteLinkState) : Link :=
  { w with state := state }

/-- A loop waits for something else, or it ends. -/
def Link.setLoop (w : Link) (i : ℕ) : Option Dial → Link
  | none => { w with loops := w.loops.eraseIdx i }
  | some d => { w with loops := w.loops.set i d }

/-- The turn of the loop up to where it waits: for the token, or for the timer if the link is not
configured. -/
def Link.turn (w : Link) (configured : Bool) : Link × Option Dial :=
  if w.running then (w.setState .connecting, some (if configured then .token else .delay))
  else (w, none)

/-- `start`. -/
def Link.start (w : Link) (configured : Bool) : Link :=
  if w.running then w
  else
    let (w, d) := { w with running := true, replacedByPeer := false }.turn configured
    { w with loops := w.loops ++ d.toList }

/-- `stop` until it waits for the socket, or to the end if there is none. -/
def Link.stop (w : Link) : Link :=
  let w := { w with
    running := false
    sockets := match w.socket with
      | none => w.sockets
      | some s => w.sockets.modify s fun k => { k with closing := true }
    socket := none }
  if w.socketClosed then { w with socketClosed := false, stops := w.stops + 1 }
  else w.setState .off

/-- The rest of `stop`. -/
def Link.stopped (w : Link) : Link :=
  if 0 < w.stops then { w with stops := w.stops - 1 }.setState .off else w

/-- What comes of the token: the request fails, or the socket cannot be created, or it is created. -/
inductive Outcome where
  | failed
  | threw
  | created
  deriving DecidableEq, Repr

/-- `connect` goes on when it has the token. -/
def Link.tokenDone (w : Link) (i : ℕ) : Outcome → Link
  | .failed => w.setLoop i (some .rejected)
  | .threw => { w with socketClosed := true }.setLoop i (some .rejected)
  | .created =>
    { w with
      socketClosed := true
      socket := some w.sockets.length
      sockets := w.sockets ++ [UplinkSocket.created] }.setLoop i (some (.connect w.sockets.length))

/-- The loop goes on after `connect`. -/
def Link.resume (w : Link) (i : ℕ) : Dial → Link
  | .resolved =>
    if !w.running then w.setLoop i none
    else if w.replacedByPeer then (w.setState .off).setLoop i none
    else (w.setState .connecting).setLoop i (some .delay)
  | .rejected =>
    (w.setState .connecting).setLoop i (if w.running then some .delay else none)
  | _ => w

/-- `onClose`. The promise of `connect` of the socket is resolved if the socket had opened. -/
def Link.onClose (w : Link) (s : ℕ) (replaced : Bool) : Link :=
  match w.sockets[s]? with
  | none => w
  | some k =>
    if k.settled then w
    else
      { w with
        sockets := w.sockets.set s { k with settled := true }
        replacedByPeer := w.replacedByPeer || replaced
        socket := none
        loops := w.loops.map fun d =>
          if d = .connect s then if k.opened then .resolved else .rejected else d }

/-- What happens: calls of `start` and `stop`, a call of `stop` goes on, a loop goes on after the
token, after `connect` or after a timer, and the callbacks of sockets. -/
inductive Action where
  | start (configured : Bool)
  | stop
  | stopped
  | token (i : ℕ) (outcome : Outcome)
  | resume (i : ℕ)
  | timer (i : ℕ) (configured : Bool)
  | opened (s : ℕ)
  | registered (s : ℕ)
  | closed (s : ℕ) (replaced : Bool)
  deriving DecidableEq, Repr

/-- A step. What cannot happen in a state does nothing in it; a socket does not call back before it
is created and but for `onClose` not after it has closed. -/
def Link.step (w : Link) : Action → Link
  | .start configured => w.start configured
  | .stop => w.stop
  | .stopped => w.stopped
  | .token i outcome => if w.loops[i]? = some .token then w.tokenDone i outcome else w
  | .resume i =>
    match w.loops[i]? with
    | none => w
    | some d => w.resume i d
  | .timer i configured =>
    if w.loops[i]? = some .delay then
      let (w, d) := w.turn configured
      w.setLoop i d
    else w
  | .opened s =>
    { w with sockets := w.sockets.modify s fun k => { k with opened := k.opened || !k.settled } }
  | .registered s =>
    match w.sockets[s]? with
    | none => w
    | some k => if k.settled then w else w.setState .online
  | .closed s replaced => w.onClose s replaced

/-- The link after a run. -/
def Link.run (as : List Action) : Link :=
  as.foldl Link.step .initial

/-! ### What is claimed -/

/-- A socket is live from its creation until it has closed or the link closes it. -/
def UplinkSocket.live (k : UplinkSocket) : Bool :=
  !k.settled && !k.closing

/-- There is at most one loop and one live socket, and a link that was stopped is off once the call
of `stop` has returned. -/
structure Orderly (w : Link) : Prop where
  loops : w.loops.length ≤ 1
  sockets : ∀ (s s' : ℕ) (k k' : UplinkSocket), w.sockets[s]? = some k → w.sockets[s']? = some k' →
    k.live → k'.live → s = s'
  off : w.running = false → w.stops = 0 → w.state = .off

/-- A link that does not run opens no socket. -/
def Quiet (w : Link) (a : Action) : Prop :=
  w.running = false → (w.step a).sockets.length = w.sockets.length

/-- The link is started when no loop is left. It is stopped when its loop waits for nothing but a
timer, a socket that has opened, or that it goes on after one. No socket that the link has closed
calls back with a registration. -/
def Settled (w : Link) : Action → Prop
  | .start _ => w.running = false → w.loops = []
  | .stop => ∀ d ∈ w.loops, d ≠ .token ∧ d ≠ .rejected ∧
      ∀ (s : ℕ) (k : UplinkSocket), d = .connect s → w.sockets[s]? = some k → k.opened
  | .registered s => ∀ k : UplinkSocket, w.sockets[s]? = some k → k.closing = false
  | _ => True

/-! ### One loop -/

/-- What holds of a link whose runs are settled: there is one loop at most, it waits for the only
socket that has not closed, which `stop` will close, and once the link is stopped it waits for
nothing after which it would do something else than end. -/
structure Steady (w : Link) : Prop where
  one : w.loops.length ≤ 1
  owned : ∀ (s : ℕ) (k : UplinkSocket), w.sockets[s]? = some k → k.settled = false →
    w.loops = [.connect s]
  held : ∀ s, w.running → w.loops = [.connect s] → w.socket = some s
  calm : w.running = false → ∀ d ∈ w.loops, d ≠ .token ∧ d ≠ .rejected ∧
    ∀ (s : ℕ) (k : UplinkSocket), d = .connect s → w.sockets[s]? = some k → k.opened ∧ k.closing
  off : w.running = false → w.stops = 0 → w.state = .off

theorem steady_initial :
  Steady .initial
  := by
  constructor
  · exact Nat.zero_le 1
  · intro s k hk
    cases hk
  · intro s hs
    cases hs
  · intro _ d hd
    cases hd
  · intro _ _
    rfl

variable {w : Link} {i : ℕ}

/-- The loop that waits for something is the only one. -/
theorem eq_singleton (h : Steady w) {d : Dial} (hd : w.loops[i]? = some d) :
  i = 0 ∧ w.loops = [d]
  := by
  obtain ⟨hi, hd⟩ := List.getElem?_eq_some_iff.mp hd
  have hone := h.one
  obtain rfl : i = 0 := by omega
  use rfl
  obtain ⟨e, he⟩ := length_eq_one_iff.mp (by omega : w.loops.length = 1)
  simp only [he, getElem_cons_zero] at hd
  rw [he, hd]

/-- While the loop waits for anything but a socket, all sockets have closed. -/
theorem settled_of_loops (h : Steady w) {loops : List Dial} (hl : w.loops = loops)
    (hne : ∀ s, loops ≠ [.connect s]) {s : ℕ} {k : UplinkSocket} (hk : w.sockets[s]? = some k) :
  k.settled
  := by
  cases hs : k.settled with
  | true => rfl
  | false => exact absurd (hl.symm.trans (h.owned s k hk hs)) (hne s)

@[simp] theorem setLoop_sockets (w : Link) (i : ℕ) (e : Option Dial) :
  (w.setLoop i e).sockets = w.sockets
  := by
  cases e with
  | none => rfl
  | some e => rfl

@[simp] theorem setLoop_running (w : Link) (i : ℕ) (e : Option Dial) :
  (w.setLoop i e).running = w.running
  := by
  cases e with
  | none => rfl
  | some e => rfl

/-- The loop waits for something else than a socket, or it ends. -/
theorem steady_setLoop {u : Link} (h : Steady w) {d : Dial} {e : Option Dial}
    (hd : w.loops[i]? = some d) (hsockets : u.sockets = w.sockets) (hloops : u.loops = w.loops)
    (hne : ∀ s, d ≠ .connect s) (he : ∀ s, e ≠ some (.connect s))
    (hcalm : u.running = false → e ≠ some .token ∧ e ≠ some .rejected)
    (hoff : u.running = false → u.stops = 0 → u.state = .off) :
  Steady (u.setLoop i e)
  := by
  obtain ⟨rfl, hsingle⟩ := eq_singleton h hd
  have hl : (u.setLoop 0 e).loops = e.toList := by
    cases e with
    | none | some e => simp [Link.setLoop, hloops, hsingle]
  constructor
  · rw [hl]
    cases e with
    | none => exact Nat.zero_le 1
    | some e => exact le_rfl
  · intro s k hk hs
    rw [setLoop_sockets, hsockets] at hk
    rw [settled_of_loops h hsingle (by simpa using hne) hk] at hs
    cases hs
  · intro s _ hs
    rw [hl] at hs
    cases e with
    | none => cases hs
    | some e => exact absurd (congrArg some (singleton_inj.mp hs)) (he s)
  · intro hr d' hd'
    rw [hl, Option.mem_toList] at hd'
    rw [setLoop_running] at hr
    obtain ⟨htoken, hrej⟩ := hcalm hr
    rw [hd'] at htoken hrej
    use (fun heq => htoken (congrArg some heq)), (fun heq => hrej (congrArg some heq))
    rintro s k rfl
    exact absurd hd' (he s)
  · cases e with
    | none | some e => exact hoff

theorem steady_start (h : Steady w) (configured : Bool) (hs : Settled w (.start configured)) :
  Steady (w.start configured)
  := by
  rw [Link.start]
  split_ifs with hr
  · exact h
  have hnil := hs (by simpa using hr)
  constructor
  · simp [Link.turn, Link.setState, hnil]
  · intro s k hk hk'
    rw [settled_of_loops h hnil (by simp) hk] at hk'
    cases hk'
  · intro s _ hl
    simp only [Link.turn, Link.setState, hnil, if_true, nil_append, Option.toList_some] at hl
    cases configured with
    | true | false => cases hl
  all_goals
    intro hr'
    cases hr'

/-- A socket of a link that is closed. -/
theorem getElem?_stop {s : ℕ} {k : UplinkSocket} (hk : w.stop.sockets[s]? = some k) :
  ∃ k', w.sockets[s]? = some k' ∧ k.settled = k'.settled ∧ k.opened = k'.opened ∧
    (k'.closing ∨ w.socket = some s → k.closing)
  := by
  have hsockets : w.stop.sockets = match w.socket with
      | none => w.sockets
      | some s => w.sockets.modify s fun k => { k with closing := true } := by
    simp only [Link.stop]
    split_ifs
    · rfl
    · rfl
  rw [hsockets] at hk
  cases hw : w.socket with
  | none =>
    rw [hw] at hk
    use k, hk, rfl, rfl
    rintro (hclose | hnone)
    · exact hclose
    · cases hnone
  | some s' =>
  rw [hw] at hk
  simp only [List.getElem?_modify] at hk
  obtain ⟨k', hk', rfl⟩ := Option.map_eq_some_iff.mp hk
  use k', hk'
  by_cases hs : s' = s
  all_goals simp [hs]

theorem stop_loops (w : Link) :
  w.stop.loops = w.loops ∧ w.stop.running = false
  := by
  simp only [Link.stop]
  split_ifs
  all_goals exact ⟨rfl, rfl⟩

theorem steady_stop (h : Steady w) (hs : Settled w .stop) :
  Steady w.stop
  := by
  obtain ⟨hloops, hruns⟩ := stop_loops w
  constructor
  · rw [hloops]
    exact h.one
  · intro s k hk hset
    obtain ⟨k', hk', hsame, -⟩ := getElem?_stop hk
    rw [hloops]
    exact h.owned s k' hk' (hsame ▸ hset)
  · intro s hr
    cases hruns.symm.trans hr
  · intro _ d hd
    rw [hloops] at hd
    obtain ⟨htoken, hrej, hopen⟩ := hs d hd
    use htoken, hrej
    rintro s k rfl hk
    obtain ⟨k', hk', -, hsame, hclose⟩ := getElem?_stop hk
    constructor
    · rw [hsame]
      exact hopen s k' rfl hk'
    apply hclose
    cases hr : w.running with
    | false =>
      left
      exact ((h.calm hr _ hd).2.2 s k' rfl hk').2
    | true =>
      right
      obtain ⟨i, hi⟩ := mem_iff_getElem?.mp hd
      exact h.held s hr (eq_singleton h hi).2
  intro _ hstops
  simp only [Link.stop] at hstops ⊢
  by_cases hshut : w.socketClosed
  · simp only [if_pos hshut] at hstops
    exact absurd hstops (Nat.succ_ne_zero _)
  · simp only [if_neg hshut]
    rfl

theorem steady_token (h : Steady w) (hd : w.loops[i]? = some .token) (outcome : Outcome) :
  Steady (w.tokenDone i outcome)
  := by
  obtain ⟨rfl, hl⟩ := eq_singleton h hd
  have hr : w.running := by
    by_contra hr
    exact (h.calm (by simpa using hr) _ (mem_of_getElem? hd)).1 rfl
  cases outcome with
  | failed =>
    change Steady (w.setLoop 0 (some .rejected))
    apply steady_setLoop h hd (by rfl) (by rfl) (by simp) (by simp) _ (by exact h.off)
    intro hr'
    cases hr.symm.trans hr'
  | threw =>
    change Steady ({ w with socketClosed := true }.setLoop 0 (some .rejected))
    apply steady_setLoop h hd (by rfl) (by rfl) (by simp) (by simp) _ (by exact h.off)
    intro hr'
    cases hr.symm.trans hr'
  | created =>
  have hloops : (w.tokenDone 0 .created).loops = [.connect w.sockets.length] := by
    simp [Link.tokenDone, Link.setLoop, hl]
  constructor
  · rw [hloops]
    exact le_rfl
  · intro s k hk hs
    rw [hloops]
    obtain ⟨hlt, -⟩ := List.getElem?_eq_some_iff.mp hk
    simp only [Link.tokenDone, Link.setLoop, length_append, length_singleton] at hlt
    obtain hlt | rfl := Nat.lt_succ_iff_lt_or_eq.mp hlt
    · simp only [Link.tokenDone, Link.setLoop, List.getElem?_append_left hlt] at hk
      rw [settled_of_loops h hl (by simp) hk] at hs
      cases hs
    · rfl
  · intro s _ hs
    rw [hloops] at hs
    obtain ⟨rfl⟩ := hs
    rfl
  all_goals
    intro hr'
    cases hr.symm.trans hr'

theorem steady_resume (h : Steady w) {d : Dial} (hd : w.loops[i]? = some d) :
  Steady (w.resume i d)
  := by
  cases d with
  | token | connect s | delay => exact h
  | resolved =>
    rw [Link.resume]
    split_ifs with hr
    · apply steady_setLoop h hd (by rfl) (by rfl) (by simp) (by simp) _ (by exact h.off)
      simp
    · apply steady_setLoop h hd (by rfl) (by rfl) (by simp) (by simp)
      · simp
      · intro _ _
        rfl
    have hr : w.running := by simpa using hr
    apply steady_setLoop h hd (by rfl) (by rfl) (by simp) (by simp)
    all_goals
      intro hr'
      cases hr.symm.trans hr'
  | rejected =>
  have hr : w.running := by
    by_contra hr
    exact (h.calm (by simpa using hr) _ (mem_of_getElem? hd)).2.1 rfl
  rw [Link.resume, if_pos hr]
  apply steady_setLoop h hd (by rfl) (by rfl) (by simp) (by simp)
  all_goals
    intro hr'
    cases hr.symm.trans hr'

theorem steady_timer (h : Steady w) (hd : w.loops[i]? = some .delay) (configured : Bool) :
  Steady ((w.turn configured).1.setLoop i (w.turn configured).2)
  := by
  cases hr : w.running with
  | false =>
    simp only [Link.turn, hr, Bool.false_eq_true, if_false]
    apply steady_setLoop h hd (by rfl) (by rfl) (by simp) (by simp) _ (by exact h.off)
    simp
  | true =>
  simp only [Link.turn, hr, if_true]
  apply steady_setLoop h hd (by rfl) (by rfl) (by simp) (by cases configured <;> simp)
  all_goals
    intro hr'
    cases hr.symm.trans hr'

theorem steady_opened (h : Steady w) (s : ℕ) :
  Steady (w.step (.opened s))
  := by
  have hget {s' : ℕ} {k : UplinkSocket} (hk : (w.step (.opened s)).sockets[s']? = some k) :
      ∃ k', w.sockets[s']? = some k' ∧ k.settled = k'.settled ∧ k.closing = k'.closing ∧
        (k'.opened → k.opened) := by
    simp only [Link.step, List.getElem?_modify] at hk
    obtain ⟨k', hk', rfl⟩ := Option.map_eq_some_iff.mp hk
    use k', hk'
    by_cases hs : s = s'
    · simp only [hs, if_true, true_and]
      intro hopen
      rw [hopen, Bool.true_or]
    · simp [hs]
  constructor
  · exact h.one
  · intro s' k hk hs
    obtain ⟨k', hk', hset, -⟩ := hget hk
    exact h.owned s' k' hk' (hset ▸ hs)
  · exact h.held
  · intro hr d hd
    obtain ⟨htoken, hrej, hconnect⟩ := h.calm hr d hd
    use htoken, hrej
    intro s' k hds hk
    obtain ⟨k', hk', -, hclose, hopen⟩ := hget hk
    obtain ⟨hopen', hclose'⟩ := hconnect s' k' hds hk'
    exact ⟨hopen hopen', hclose.trans hclose'⟩
  · exact h.off

theorem steady_registered (h : Steady w) {s : ℕ} (hs : Settled w (.registered s)) :
  Steady (w.step (.registered s))
  := by
  rw [Link.step]
  cases hk : w.sockets[s]? with
  | none => exact h
  | some k =>
  simp only
  split_ifs with hset
  · exact h
  use h.one, h.owned, h.held, h.calm
  intro hr
  have hl := h.owned s k hk (by simpa using hset)
  have hclose := ((h.calm hr (.connect s) (by simp [hl])).2.2 s k rfl hk).2
  cases hclose.symm.trans (hs k hk)

theorem steady_onClose (h : Steady w) (s : ℕ) (replaced : Bool) :
  Steady (w.onClose s replaced)
  := by
  rw [Link.onClose]
  cases hk : w.sockets[s]? with
  | none => exact h
  | some k =>
  simp only
  by_cases hset : k.settled
  · rw [if_pos hset]
    exact h
  rw [if_neg hset]
  have hl := h.owned s k hk (by simpa using hset)
  have hloops : (w.loops.map fun d =>
      if d = .connect s then if k.opened then Dial.resolved else .rejected else d) =
        [if k.opened then .resolved else .rejected] := by
    simp [hl]
  constructor
  · rw [hloops]
    exact le_rfl
  · intro s' k' hk' hs
    simp only [List.getElem?_set] at hk'
    split_ifs at hk' with heq hlt
    · cases hk'
      cases hs
    have hl' := h.owned s' k' hk' hs
    rw [hl] at hl'
    obtain ⟨rfl⟩ := hl'
    exact absurd rfl heq
  · intro s' _ hs
    rw [hloops] at hs
    cases hopen : k.opened with
    | true | false => simp [hopen] at hs
  · intro hr d hd
    rw [hloops, mem_singleton] at hd
    have hopen := ((h.calm hr (.connect s) (by simp [hl])).2.2 s k rfl hk).1
    rw [hopen, if_pos rfl] at hd
    simp [hd]
  · exact h.off

/-- A step that is settled keeps a link steady. -/
theorem steady_step {a : Action} (h : Steady w) (ha : Settled w a) :
  Steady (w.step a)
  := by
  cases a with
  | start configured => exact steady_start h configured ha
  | stop => exact steady_stop h ha
  | stopped =>
    rw [Link.step, Link.stopped]
    split_ifs
    · exact ⟨h.one, h.owned, h.held, h.calm, fun _ _ => rfl⟩
    · exact h
  | token i outcome =>
    rw [Link.step]
    split_ifs with hd
    · exact steady_token h hd outcome
    · exact h
  | resume i =>
    rw [Link.step]
    cases hd : w.loops[i]? with
    | none => exact h
    | some d => exact steady_resume h hd
  | timer i configured =>
    rw [Link.step]
    split_ifs with hd
    · exact steady_timer h hd configured
    · exact h
  | opened s => exact steady_opened h s
  | registered s => exact steady_registered h ha
  | closed s replaced => exact steady_onClose h s replaced

/-! ### The result -/

theorem orderly_of_steady (h : Steady w) :
  Orderly w
  := by
  use h.one
  · intro s s' k k' hk hk' hlive hlive'
    rw [UplinkSocket.live, Bool.and_eq_true, Bool.not_eq_true'] at hlive hlive'
    have hl := h.owned s k hk hlive.1
    rw [h.owned s' k' hk' hlive'.1] at hl
    obtain ⟨rfl⟩ := hl
    rfl
  · exact h.off

/-- A link that does not run does not wait for a token, and opens no socket. -/
theorem quiet_of_steady (h : Steady w) (a : Action) :
  Quiet w a
  := by
  intro hr
  cases a with
  | start configured => simp [Link.step, Link.start, hr, Link.turn, Link.setState]
  | stop =>
    simp only [Link.step, Link.stop]
    split_ifs
    all_goals
      cases w.socket with
      | none => rfl
      | some s => exact length_modify ..
  | stopped =>
    rw [Link.step, Link.stopped]
    split_ifs
    · rfl
    · rfl
  | token i outcome =>
    rw [Link.step]
    split_ifs with hd
    · exact absurd rfl (h.calm hr _ (mem_of_getElem? hd)).1
    · rfl
  | resume i =>
    rw [Link.step]
    cases hd : w.loops[i]? with
    | none => rfl
    | some d =>
    cases d with
    | token | connect | delay => rfl
    | resolved => simp [Link.resume, hr, Link.setLoop]
    | rejected => exact absurd rfl (h.calm hr _ (mem_of_getElem? hd)).2.1
  | timer i configured =>
    rw [Link.step]
    split_ifs
    · simp [Link.turn, hr, Link.setLoop]
    · rfl
  | opened s => exact length_modify ..
  | registered s =>
    rw [Link.step]
    cases w.sockets[s]? with
    | none => rfl
    | some k =>
    simp only
    split_ifs
    · rfl
    · rfl
  | closed s replaced =>
  rw [Link.step, Link.onClose]
  cases w.sockets[s]? with
  | none => rfl
  | some k =>
  simp only
  by_cases hset : k.settled
  · rw [if_pos hset]
  · rw [if_neg hset]
    exact length_set

/-- In a run whose steps are settled, there is at most one loop and one live socket in every state,
a link that was stopped is off, and it opens no socket. -/
theorem orderly_of_settled {as : List Action}
    (h : ∀ past a rest, as = past ++ a :: rest → Settled (Link.run past) a) :
  (∀ past rest, as = past ++ rest → Orderly (Link.run past)) ∧
    ∀ past a rest, as = past ++ a :: rest → Quiet (Link.run past) a
  := by
  have hstd : ∀ past rest, as = past ++ rest → Steady (Link.run past) := by
    intro past rest has
    apply Run.Guarded.invariant (I := Steady) _ steady_initial _
      (Run.run_some Link.step .initial past)
    · exact Settled
    · intro w a w' hw ha hstep
      cases hstep
      exact steady_step hw ha
    · rw [Run.guarded_some_iff]
      intro before a after hpast
      exact h before a (after ++ rest) (by simp [has, hpast])
  constructor
  · intro past rest has
    exact orderly_of_steady (hstd past rest has)
  · intro past a rest has
    exact quiet_of_steady (hstd past (a :: rest) has) a

/-- A link is stopped when it is online, and started again once its loop has ended. -/
theorem orderly_of_settled_restart :
  Orderly (Link.run [.start true, .token 0 .created, .opened 0, .registered 0, .stop,
    .closed 0 false, .resume 0, .stopped, .start true])
  := by
  apply (orderly_of_settled ((Run.guarded_some_iff Link.step).mp _)).1 _ [] rfl
  refine ⟨fun _ => rfl, trivial, trivial, ?_, ?_, trivial, trivial, trivial, fun _ => rfl, trivial⟩
  · rintro k ⟨⟩
    rfl
  intro d hd
  obtain rfl := mem_singleton.mp hd
  use (by decide), (by decide)
  rintro s k ⟨⟩ ⟨⟩
  rfl

/-- The link is started again while the old loop waits for its timer: there are two loops. It is
stopped while it waits for a token: it opens a socket. It is stopped while the socket has not
opened: it ends with the state of a link that connects. -/
theorem not_orderly :
  ¬ Orderly (Link.run [.start false, .stop, .start false]) ∧
    ¬ Quiet (Link.run [.start true, .stop]) (.token 0 .created) ∧
    ¬ Orderly (Link.run [.start true, .token 0 .created, .stop, .closed 0 false, .stopped,
      .resume 0])
  := by
  constructor
  · intro h
    exact absurd h.loops (by decide)
  constructor
  · intro h
    exact absurd (h rfl) (by decide)
  · intro h
    exact absurd (h.off rfl rfl) (by decide)

end RemoteLink
