import VolundCode.Lib.Dynamic
import VolundCode.Lib.Indexed
import VolundCode.Lib.Promises
import VolundCode.Lib.Run
import VolundCode.Lib.Utf8

/-!
# The bridge to a plugin

The host's side of the bridge on which a plugin process asks the host for things and the host calls
back. A frame is a line. The handlers of the host may return anything and may throw; what they
return becomes a frame when it can be written and is not too large.

As long as it can, every request that is handled while the bridge is open is replied to once, every
callback is settled once, and nothing escapes (`bridge_settles_of_run`). The code throws where a reply or
the frame of a callback cannot be written, after it has forgotten who waits for it, and where a
frame is `null` or an error has no text (`not_bridge_settles`).
-/

namespace PluginRuntime.BridgeServer

open Effect Js Promises Run List

/-! ### Values -/

/-- A value of the host. In `endless` one does not come to an end, as in a cycle, or a getter
throws. -/
inductive HostValue where
  | undefined
  | null
  | bool (b : Bool)
  | num (d : Decimal)
  | str (s : String)
  | bigint
  | function
  | endless
  | callback (callbackId : String)
  | arr (xs : List HostValue)
  | obj (ms : List (String × HostValue))

mutual

def encodeValue : HostValue → Except Thrown HostValue
  | .function => .ok (.obj [("$callback", .str "host-callback-unsupported")])
  | .callback callbackId => .ok (.obj [("callbackId", .str callbackId)])
  | .arr xs => do return .arr (← encodeElements xs)
  | .obj ms => do return .obj (← encodeMembers ms)
  | .endless => .error (.typeError "endless")
  | value => .ok value

def encodeElements : List HostValue → Except Thrown (List HostValue)
  | [] => .ok []
  | x :: xs => do return (← encodeValue x) :: (← encodeElements xs)

def encodeMembers : List (String × HostValue) → Except Thrown (List (String × HostValue))
  | [] => .ok []
  | (k, v) :: ms => do return (k, ← encodeValue v) :: (← encodeMembers ms)

end

mutual

/-- What `JSON.stringify` writes of a value. -/
def json : HostValue → Except Thrown Value
  | .undefined | .function => .ok none
  | .null => .ok (some .null)
  | .bool b => .ok (some (.bool b))
  | .num d => .ok (some (.num d))
  | .str s => .ok (some (.str s))
  | .bigint => .error (.typeError "bigint")
  | .endless => .error (.typeError "endless")
  | .callback callbackId => .ok (some (.obj [("callbackId", .str callbackId)]))
  | .arr xs => do return some (.arr (← jsonElements xs))
  | .obj ms => do return some (.obj (← jsonMembers ms))

def jsonElements : List HostValue → Except Thrown (List Json)
  | [] => .ok []
  | x :: xs => do return ((← json x).getD .null) :: (← jsonElements xs)

def jsonMembers : List (String × HostValue) → Except Thrown (List (String × Json))
  | [] => .ok []
  | (k, v) :: ms => do return Json.optional k (← json v) ++ (← jsonMembers ms)

end

mutual

def decodeJson : Json → HostValue
  | .null => .null
  | .bool b => .bool b
  | .num d => .num d
  | .str s => .str s
  | .arr xs => .arr (decodeElements xs)
  | .obj [("$callback", .str callbackId)] => .callback callbackId
  | .obj ms => .obj (decodeMembers ms)

def decodeElements : List Json → List HostValue
  | [] => []
  | x :: xs => decodeJson x :: decodeElements xs

def decodeMembers : List (String × Json) → List (String × HostValue)
  | [] => []
  | (k, v) :: ms => (k, decodeJson v) :: decodeMembers ms

end

def decodeValue : Value → HostValue
  | none => .undefined
  | some v => decodeJson v

/-! ### The server -/

/-- How a callback was settled: by a frame of the plugin, by its timer or by the end. -/
inductive Settlement where
  | resolved (frame : Json) (value : HostValue)
  | rejected (frame : Json) (message : String)
  | timedOut
  | closed (reason : String)

/-- What becomes of a request in the handlers of the host: there is none, it returns, or it throws
something that may have no text. -/
inductive HandlerOutcome where
  | absent
  | returned (value : HostValue)
  | threw (text : Except Thrown String)

/-- A request of the plugin, and when it was settled: whether the server was closed then, and what
has become of it. -/
structure Request where
  id : Decimal
  method : String
  params : HostValue
  settled : Option (Bool × HandlerOutcome)

/-- The server. An entry of `pending` holds its timer. A frame that was written is kept with the
request it replies to, if it does. -/
structure PluginBridgeServer where
  pending : Table Decimal Settlement
  notifications : String → Option ℕ
  buffer : List Char
  nextId : ℕ
  isClosed : Bool
  requests : List Request
  notified : List (ℕ × Value)
  output : List (Option ℕ × Json)

/-- What the server does, until something is thrown. -/
abbrev Code (α : Type) := Effect Thrown PluginBridgeServer α

def PluginBridgeServer.new : PluginBridgeServer where
  pending := .empty
  notifications _ := none
  buffer := []
  nextId := 1
  isClosed := false
  requests := []
  notified := []
  output := []

/-- The bytes of a text. -/
def byteLength (text : List Char) : ℕ :=
  (Utf8.encode text).length

/-- A frame that is sent. -/
def frameOf (members : List (String × Json)) : Json :=
  .obj ([("jsonrpc", .str "2.0"), ("bridgeVersion", .num (.make 1 0))] ++ members)

def close (reason : String) : Code Unit := do
  let s ← get
  if s.isClosed then return
  modify fun s =>
    { s with
      isClosed := true
      pending := s.pending.settleAll (.closed reason)
      notifications := fun _ => none }

section Limit

variable (frameBytes : ℕ)

/-- A frame within the limit. -/
def Writable (frame : Json) : Prop :=
  byteLength (Json.stringify frame ++ ['\n']) ≤ frameBytes

instance (frame : Json) : Decidable (Writable frameBytes frame) :=
  inferInstanceAs (Decidable (_ ≤ _))

/-- `#write`, of a frame for a request or for none. -/
def write (source : Option ℕ) (frame : Except Thrown Json) : Code Unit := do
  let s ← get
  if s.isClosed then return
  let frame ← Effect.ofExcept frame
  if Writable frameBytes frame then
    modify fun s => { s with output := s.output ++ [(source, frame)] }
  else throw (.refused "plugin_bridge_frame_too_large")

/-! ### Replies -/

/-- What a reply says, before it is written. -/
inductive Reply where
  | result (value : HostValue)
  | error (message : String)

/-- What is replied to a request. -/
def replyTo (method : String) : HandlerOutcome → Except Thrown Reply
  | .absent => .ok (.error method)
  | .returned value => do return .result (← encodeValue value)
  | .threw text => do return .error (← text)

/-- The frame of a reply. -/
def replyFrame (id : Decimal) : Reply → Except Thrown Json
  | .result value => do
    return frameOf ([("id", .num id)] ++ Json.optional "result" (← json value))
  | .error message =>
    .ok (frameOf
      [("id", .num id),
        ("error", .obj [("code", .num (.make (-32000) 0)), ("message", .str message)])])

/-- What follows when a request has been handled. -/
def reply (n : ℕ) (request : Request) (outcome : HandlerOutcome) : Code Unit := do
  let answer ← Effect.ofExcept (replyTo request.method outcome)
  write frameBytes (some n) (replyFrame request.id answer)

/-- A request is handled, and replied to. -/
def handled (n : ℕ) (outcome : HandlerOutcome) : Code Unit := do
  let s ← get
  match s.requests[n]? with
  | none => return
  | some request =>
    if request.settled.isSome then return
    modify fun s =>
      { s with requests := s.requests.set n { request with settled := some (s.isClosed, outcome) } }
    reply frameBytes n request outcome

/-! ### Frames -/

/-- The id of a frame. -/
def frameId (frame : Json) : Option Decimal :=
  match maybe (some frame) "id" with
  | some (.num id) => some id
  | _ => none

/-- What a response settles its callback with. -/
def responseOf (frame : Json) : Except Thrown Settlement := do
  let error := maybe (some frame) "error"
  if truthy error then
    return .rejected frame (← toText (orElse (maybe error "message") (.str "RPC failed")))
  else return .resolved frame (decodeValue (maybe (some frame) "result"))

/-- A response to a callback. -/
def onResponse (id : Decimal) (frame : Json) : Code Unit := do
  let s ← get
  if (s.pending.pending id).isSome then
    match responseOf frame with
    | .ok settlement => modify fun s => { s with pending := s.pending.settle id settlement }
    | .error e =>
      modify fun s => { s with pending := s.pending.delete id }
      throw e

/-- A notification for who waits for it. -/
def onNotification (method : String) (frame : Json) : Code Unit :=
  modify fun s =>
    match s.notifications method with
    | none => s
    | some waiter =>
      { s with
        notifications := Function.update s.notifications method none
        notified := s.notified ++ [(waiter, maybe (some frame) "params")] }

def onFrame (frame : Json) : Code Unit :=
  let method := maybe (some frame) "method"
  match frameId frame, method with
  | some id, some (.str method) =>
    if method = "" then onResponse id frame
    else
      modify fun s =>
        { s with
          requests := s.requests ++
            [⟨id, method, decodeValue (maybe (some frame) "params"), none⟩] }
  | some id, method => if truthy method then pure () else onResponse id frame
  | none, some (.str method) => onNotification method frame
  | none, _ => pure ()

/-- The frame follows the protocol. -/
def isProtocol (frame : Json) : Bool :=
  isText (maybe (some frame) "jsonrpc") "2.0" &&
    match maybe (some frame) "bridgeVersion" with
    | some (.num version) => version = .make 1 0
    | _ => false

/-- The lines of the buffer in turn, until one of them ends the connection. -/
def onLines (rest : List Char) : List (List Char) → Code Unit
  | [] => modify fun s => { s with buffer := rest }
  | line :: lines => do
    modify fun s => { s with buffer := (lines.flatMap fun line => line ++ ['\n']) ++ rest }
    if line = [] then onLines rest lines
    else if frameBytes < byteLength line then close "bridge frame exceeds limit"
    else
      match Json.parse line with
      | none => close "invalid bridge JSON"
      | some .null => throw (.typeError "jsonrpc")
      | some frame =>
        if isProtocol frame then
          onFrame frame
          onLines rest lines
        else close "unsupported bridge protocol"

/-- The lines of a text, and what follows the last of them. -/
def cutLines : List Char → List (List Char) × List Char
  | [] => ([], [])
  | c :: s =>
    let cut := cutLines s
    if c = '\n' then ([] :: cut.1, cut.2)
    else
      match cut with
      | ([], rest) => ([], c :: rest)
      | (line :: lines, rest) => ((c :: line) :: lines, rest)

def onData (chunk : List Char) : Code Unit := do
  modify fun s => { s with buffer := s.buffer ++ chunk }
  let s ← get
  let cut := cutLines s.buffer
  if frameBytes < byteLength s.buffer ∧ cut.1 = [] then close "bridge frame exceeds limit"
  else onLines frameBytes cut.2 cut.1

/-! ### Callbacks -/

/-- The frame of a callback. -/
def callbackFrame (id : Decimal) (callbackId : String) (args : List HostValue) :
    Except Thrown (Except Thrown Json) := do
  let args ← encodeElements args
  return do
    return frameOf
      [("id", .num id), ("method", .str "callback.invoke"),
        ("params", .obj [("callbackId", .str callbackId), ("args", .arr (← jsonElements args))])]

def invokeCallback (callbackId : String) (args : List HostValue) : Code Unit := do
  let s ← get
  let id : Decimal := .make s.nextId 0
  if s.isClosed then
    modify fun s => { s with pending := s.pending.addSettled id (.closed "bridge closed") }
  else
    modify fun s => { s with nextId := s.nextId + 1, pending := s.pending.add id }
    let frame ← Effect.ofExcept (callbackFrame id callbackId args)
    write frameBytes none frame

end Limit

/-- The timer of a callback. It has been cleared if the callback is not pending. -/
def callTimeout (id : Decimal) : Code Unit :=
  modify fun s => { s with pending := s.pending.settle id .timedOut }

def waitFor (waiter : ℕ) (method : String) : Code Unit :=
  modify fun s => { s with notifications := Function.update s.notifications method (some waiter) }

/-- The timer of `waitFor`. -/
def waitTimeout (method : String) : Code Unit :=
  modify fun s => { s with notifications := Function.update s.notifications method none }

/-! ### Runs -/

/-- What happens to a server. -/
inductive Action where
  | data (chunk : List Char)
  | handled (request : ℕ) (outcome : HandlerOutcome)
  | invokeCallback (callbackId : String) (args : List HostValue)
  | callTimeout (id : Decimal)
  | waitFor (waiter : ℕ) (method : String)
  | waitTimeout (method : String)
  | close (reason : String)

/-- What the server does when something happens. -/
def codeOf (frameBytes : ℕ) : Action → Code Unit
  | .data chunk => onData frameBytes chunk
  | .handled n outcome => handled frameBytes n outcome
  | .invokeCallback callbackId args => invokeCallback frameBytes callbackId args
  | .callTimeout id => callTimeout id
  | .waitFor waiter method => waitFor waiter method
  | .waitTimeout method => waitTimeout method
  | .close reason => close reason

/-- A server, and what has been thrown out of it: by the handler of data, out of a continuation, or
to a caller. -/
structure World where
  server : PluginBridgeServer
  thrown : List Thrown

def World.start : World where
  server := .new
  thrown := []

def step (frameBytes : ℕ) (w : World) (a : Action) : World :=
  match codeOf frameBytes a w.server with
  | .ok _ t => { w with server := t }
  | .error e t => { server := t, thrown := w.thrown ++ [e] }

/-! ### What does no harm -/

/-- The callback to which a frame responds. -/
def responseTo (frame : Json) : Option Decimal :=
  match maybe (some frame) "method" with
  | some (.str method) => if method = "" then frameId frame else none
  | method => if truthy method then none else frameId frame

/-- The frame does not respond to a pending callback with an error that has no text. -/
def harmless (pending : Decimal → Bool) (frame : Json) : Bool :=
  (responseTo frame).all fun id => !pending id || (responseOf frame).isOk

/-- No line that is read is `null`, and every frame is harmless when it comes. Lines are read up to
one that ends the connection. -/
def allHarmless (frameBytes : ℕ) : (Decimal → Bool) → List (List Char) → Bool
  | _, [] => true
  | pending, line :: lines =>
    if line = [] then allHarmless frameBytes pending lines
    else if frameBytes < byteLength line then true
    else
      match Json.parse line with
      | none => true
      | some .null => false
      | some frame =>
        !isProtocol frame ||
          (harmless pending frame &&
            allHarmless frameBytes (fun id => pending id && responseTo frame ≠ some id) lines)

/-- The request can be replied to: what the handler returned or threw can be encoded, and as long
as the server is open, the reply can be written within the limit. -/
def repliable (frameBytes : ℕ) (s : PluginBridgeServer) (outcome : HandlerOutcome)
    (request : Request) : Bool :=
  match replyTo request.method outcome with
  | .error _ => false
  | .ok answer =>
    s.isClosed ||
      match replyFrame request.id answer with
      | .error _ => false
      | .ok frame => Writable frameBytes frame

/-- As long as the server is open, the frame of the callback can be written within the limit. -/
def callable (frameBytes : ℕ) (s : PluginBridgeServer) (callbackId : String)
    (args : List HostValue) : Bool :=
  s.isClosed ||
    match callbackFrame (.make s.nextId 0) callbackId args with
    | .ok (.ok frame) => Writable frameBytes frame
    | _ => false

/-- What waits for a response. -/
def waits (pending : Table Decimal Settlement) (id : Decimal) : Bool :=
  (pending.pending id).isSome

/-- What does no harm: harmless lines, requests that can be replied to, and callbacks that can be
written. -/
def orderly (frameBytes : ℕ) (w : World) : Action → Bool
  | .data chunk =>
    allHarmless frameBytes (waits w.server.pending) (cutLines (w.server.buffer ++ chunk)).1
  | .handled n outcome => w.server.requests[n]?.all (repliable frameBytes w.server outcome)
  | .invokeCallback callbackId args => callable frameBytes w.server callbackId args
  | _ => true

/-! ### What holds at all times -/

/-- The frames that reply to a request. -/
def repliesOf (output : List (Option ℕ × Json)) (n : ℕ) : List Json :=
  (output.filter fun entry => entry.1 = some n).map Prod.snd

/-- A request that was handled while the server was open has been replied to once, with what its
handler has returned or thrown, and any other request has not been replied to. -/
def Replied (output : List (Option ℕ × Json)) (n : ℕ) (request : Request) : Prop :=
  match request.settled with
  | some (false, outcome) =>
    ∃ answer frame, replyTo request.method outcome = .ok answer ∧
      replyFrame request.id answer = .ok frame ∧ repliesOf output n = [frame]
  | _ => repliesOf output n = []

/-- A frame settles the callback with its id. -/
def Settled (_ : ℕ) (id : Decimal) : Settlement → Prop
  | .resolved frame _ | .rejected frame _ => frameId frame = some id
  | .timedOut | .closed _ => True

/-- Requests are replied to once, callbacks are pending under their ids or have been settled once,
and nothing has been thrown. -/
structure World.Settles (w : World) : Prop where
  replies : ∀ (n : ℕ) (request : Request), w.server.requests[n]? = some request →
    Replied w.server.output n request
  callbacks : w.server.pending.Sound Settled
  closed : w.server.isClosed → ∀ p ∈ w.server.pending.promises, p.settled ≠ []
  thrown : w.thrown = []

/-- What holds of the server at all times. -/
structure Sound (s : PluginBridgeServer) : Prop where
  replies : Indexed.Each (Replied s.output) s.requests
  sources : ∀ entry ∈ s.output, ∀ n, entry.1 = some n → n < s.requests.length
  callbacks : s.pending.Sound Settled
  ids : ∀ id, s.pending.pending id ≠ none → ∃ m, m < s.nextId ∧ id = .make m 0
  closed : s.isClosed → ∀ id, s.pending.pending id = none

variable {frameBytes : ℕ} {s : PluginBridgeServer}

theorem repliesOf_concat (output : List (Option ℕ × Json)) (entry : Option ℕ × Json) (n : ℕ) :
  repliesOf (output ++ [entry]) n = repliesOf output n ++ if entry.1 = some n then [entry.2] else []
  := by
  unfold repliesOf
  rw [filter_append, map_append]
  split
  next h => rw [filter_cons_of_pos (by simpa using h)]; rfl
  next h => rw [filter_cons_of_neg (by simpa using h)]; rfl

/-- What is written for others does not reply to a request. -/
theorem Replied.concat {output : List (Option ℕ × Json)} {entry : Option ℕ × Json} {n : ℕ}
    {request : Request} (h : Replied output n request) (hentry : entry.1 ≠ some n) :
  Replied (output ++ [entry]) n request
  := by
  have hsame : repliesOf (output ++ [entry]) n = repliesOf output n := by
    rw [repliesOf_concat, if_neg hentry, append_nil]
  unfold Replied at h ⊢
  rw [hsame]
  apply h

/-- A request that has just come has not been replied to. -/
theorem Sound.repliesOf_new (h : Sound s) :
  repliesOf s.output s.requests.length = []
  := by
  unfold repliesOf
  rw [map_eq_nil_iff, filter_eq_nil_iff]
  intro entry hentry hsrc
  apply Nat.lt_irrefl s.requests.length
  apply h.sources entry hentry
  simpa using hsrc

/-- The end. -/
theorem Sound.close (h : Sound s) (reason : String) :
  wp (close reason) (fun _ t => Sound t) (fun _ _ => False) s
  := by
  unfold BridgeServer.close
  rw [wp_bind, wp_get, wp_ite]
  split
  · exact h
  rw [wp_modify]
  constructor
  · apply h.replies
  · apply h.sources
  · apply h.callbacks.settleAll
    intro n id _
    trivial
  · intro id hid
    exact absurd rfl hid
  · intro _ id
    rfl

/-- A callback is settled. -/
theorem Sound.settle {id : Decimal} {settlement : Settlement} (h : Sound s)
    (hfits : ∀ n, Settled n id settlement) :
  Sound { s with pending := s.pending.settle id settlement }
  := by
  constructor
  · apply h.replies
  · apply h.sources
  · apply h.callbacks.settle
    intro n _
    apply hfits
  · intro id' hid'
    apply h.ids
    intro hnone
    apply hid'
    rcases Table.pending_settle_cases s.pending id id' settlement with heq | heq
    · apply heq
    · rw [← hnone]
      apply heq
  intro hshut id'
  rcases Table.pending_settle_cases s.pending id id' settlement with heq | heq
  · apply heq
  · rw [← h.closed hshut id']
    apply heq

/-- A change that the requests and the callbacks do not notice. -/
theorem Sound.same {t : PluginBridgeServer} (h : Sound s) (hreqs : t.requests = s.requests)
    (houtput : t.output = s.output) (hpend : t.pending = s.pending)
    (hnextId : t.nextId = s.nextId) (hshut : t.isClosed = s.isClosed) :
  Sound t
  := by
  constructor
  · rw [hreqs, houtput]
    apply h.replies
  · rw [hreqs, houtput]
    apply h.sources
  · rw [hpend]
    apply h.callbacks
  · rw [hpend, hnextId]
    apply h.ids
  · rw [hpend, hshut]
    apply h.closed

/-- A request that comes. -/
theorem Sound.request (h : Sound s) (id : Decimal) (method : String) (params : HostValue) :
  Sound { s with requests := s.requests ++ [⟨id, method, params, none⟩] }
  := by
  constructor
  · apply h.replies.concat
    apply h.repliesOf_new
  · intro entry hentry n hn
    rw [length_append]
    apply Nat.lt_of_lt_of_le (h.sources entry hentry n hn) (Nat.le_add_right _ _)
  · apply h.callbacks
  · apply h.ids
  · apply h.closed

/-- What a response says is said of the callback with its id. -/
theorem settled_of_responseOf {frame : Json} {settlement : Settlement} {id : Decimal} {n : ℕ}
    (h : responseOf frame = .ok settlement) (hid : frameId frame = some id) :
  Settled n id settlement
  := by
  unfold responseOf at h
  dsimp only at h
  split at h
  · cases htext : toText (orElse (maybe (maybe (some frame) "error") "message")
      (.str "RPC failed")) with
    | error e =>
      rw [htext] at h
      cases h
    | ok message =>
      rw [htext] at h
      cases h
      exact hid
  · cases h
    exact hid

/-- What waits is not lost sight of: after a frame the callback that it responds to does not wait,
and no other begins to. -/
theorem Sound.frame {frame : Json} (h : Sound s) (hframe : harmless (waits s.pending) frame) :
  wp (onFrame frame)
    (fun _ t => Sound t ∧
      ∀ id, waits t.pending id → waits s.pending id ∧ responseTo frame ≠ some id)
    (fun _ _ => False) s
  := by
  have hresp : ∀ id, frameId frame = some id → responseTo frame = some id → wp (onResponse id frame)
        (fun _ t => Sound t ∧
          ∀ id, waits t.pending id → waits s.pending id ∧ responseTo frame ≠ some id)
        (fun _ _ => False) s := by
    intro id hid hto
    unfold onResponse
    rw [wp_bind, wp_get, wp_ite]
    split
    next hpend =>
      obtain ⟨settlement, hsettlement⟩ : ∃ settlement, responseOf frame = .ok settlement := by
        unfold harmless waits at hframe
        rw [hto, Option.all_some, hpend, Bool.not_true, Bool.false_or] at hframe
        cases hresp : responseOf frame with
        | ok settlement => use settlement
        | error e =>
          rw [hresp] at hframe
          cases hframe
      rw [hsettlement]
      dsimp only
      rw [wp_modify]
      constructor
      · apply h.settle
        intro n
        apply settled_of_responseOf hsettlement hid
      intro id' hid'
      unfold waits at hid' ⊢
      constructor
      · rcases Table.pending_settle_cases s.pending id id' settlement with heq | heq
        · rw [heq] at hid'
          cases hid'
        · rw [← heq]
          apply hid'
      intro hto'
      obtain rfl := Option.some.inj (hto.symm.trans hto')
      rw [Table.pending_settle_self] at hid'
      cases hid'
    next hpend =>
      rw [wp_pure]
      use h
      intro id' hid'
      use hid'
      intro hto'
      obtain rfl := Option.some.inj (hto.symm.trans hto')
      apply hpend hid'
  have hother : responseTo frame = none → ∀ t : PluginBridgeServer, t.pending = s.pending →
      Sound t → Sound t ∧
        ∀ id, waits t.pending id → waits s.pending id ∧ responseTo frame ≠ some id := by
    intro hto t hpend ht
    use ht
    intro id hid
    rw [hpend] at hid
    use hid
    rw [hto]
    rintro ⟨⟩
  unfold onFrame
  dsimp only
  split
  next id method hid hmeth =>
    split
    next hempty =>
      apply hresp id hid
      unfold responseTo
      rw [hmeth]
      dsimp only
      rw [if_pos hempty, hid]
    next hempty =>
      rw [wp_modify]
      apply hother
      · unfold responseTo
        rw [hmeth]
        dsimp only
        rw [if_neg hempty]
      · rfl
      · apply h.request
  next method id hid hmeth =>
    rw [wp_ite]
    have hto : responseTo frame = if truthy (maybe (some frame) "method") then none else some id := by
      unfold responseTo
      split
      next text htext => exact absurd htext (hmeth text)
      · rw [hid]
    split
    next htruthy =>
      rw [wp_pure]
      apply hother
      · rw [hto, if_pos htruthy]
      · rfl
      · apply h
    next htruthy =>
      apply hresp id hid
      rw [hto, if_neg htruthy]
  next method hid hmeth =>
    have hto : responseTo frame = none := by
      unfold responseTo
      rw [hmeth]
      dsimp only
      rw [hid, ite_self]
    unfold onNotification
    rw [wp_modify]
    split
    · apply hother hto
      · rfl
      · apply h
    apply hother hto
    · rfl
    · apply h.same
      all_goals rfl
  next hid _ =>
    rw [wp_pure]
    apply hother
    · unfold responseTo
      rw [hid]
      split
      all_goals rw [ite_self]
    · rfl
    · apply h

/-- With fewer pending callbacks lines are as harmless. -/
theorem allHarmless_mono {pending pending' : Decimal → Bool} {lines : List (List Char)}
    (hsub : ∀ id, pending' id → pending id) (h : allHarmless frameBytes pending lines) :
  allHarmless frameBytes pending' lines
  := by
  induction lines generalizing pending pending' with
  | nil => rfl
  | cons line lines ih =>
  unfold allHarmless at h ⊢
  split
  next hempty =>
    rw [if_pos hempty] at h
    apply ih hsub h
  next hempty =>
    rw [if_neg hempty] at h
    split
    · rfl
    next hsize =>
      rw [if_neg hsize] at h
      cases hparse : Json.parse line with
      | none => rfl
      | some frame =>
      rw [hparse] at h
      cases frame with
      | null => exact h
      | _ =>
      simp only [Bool.or_eq_true, Bool.and_eq_true] at h ⊢
      apply h.imp_right
      rintro ⟨hframe, hlines⟩
      constructor
      · unfold harmless at hframe ⊢
        rw [Option.all_eq_true] at hframe ⊢
        intro id hid
        have hok := hframe id hid
        rw [Bool.or_eq_true, Bool.not_eq_true'] at hok ⊢
        apply hok.imp_left
        intro hnot
        rw [← Bool.not_eq_true] at hnot ⊢
        exact mt (hsub id) hnot
      apply ih _ hlines
      intro id hid
      rw [Bool.and_eq_true] at hid ⊢
      exact ⟨hsub id hid.1, hid.2⟩

/-- Harmless lines. -/
theorem Sound.lines {lines : List (List Char)} (rest : List Char) (h : Sound s)
    (hlines : allHarmless frameBytes (waits s.pending) lines) :
  wp (onLines frameBytes rest lines) (fun _ t => Sound t) (fun _ _ => False) s
  := by
  induction lines generalizing s with
  | nil =>
    unfold onLines
    rw [wp_modify]
    apply h.same
    all_goals rfl
  | cons line lines ih =>
  unfold onLines
  rw [wp_bind, wp_modify]
  have hbuf : Sound { s with
      buffer := (lines.flatMap fun line => line ++ ['\n']) ++ rest } := by
    apply h.same
    all_goals rfl
  generalize ht : { s with
      buffer := (lines.flatMap fun line => line ++ ['\n']) ++ rest } = t at hbuf ⊢
  have hpend : s.pending = t.pending := by
    rw [← ht]
  rw [hpend] at hlines
  unfold allHarmless at hlines
  rw [wp_ite]
  split
  next hempty =>
    rw [if_pos hempty] at hlines
    apply ih hbuf hlines
  next hempty =>
    rw [if_neg hempty] at hlines
    rw [wp_ite]
    split
    · apply hbuf.close
    next hsize =>
      rw [if_neg hsize] at hlines
      cases hparse : Json.parse line with
      | none => exact hbuf.close _
      | some frame =>
      rw [hparse] at hlines
      cases frame with
      | null => cases hlines
      | _ =>
      dsimp only at hlines ⊢
      rw [wp_ite]
      split
      next hprotocol =>
        rw [hprotocol, Bool.not_true, Bool.false_or, Bool.and_eq_true] at hlines
        rw [wp_bind]
        apply wp_mono (hbuf.frame hlines.1)
        · intro _ u hu
          apply ih hu.1
          apply allHarmless_mono _ hlines.2
          intro id hid
          rw [Bool.and_eq_true, decide_eq_true_eq]
          apply hu.2 id hid
        · intro _ _ hfalse
          apply hfalse
      · apply hbuf.close

/-- Harmless lines that come. -/
theorem Sound.data {chunk : List Char} (h : Sound s)
    (hlines : allHarmless frameBytes (waits s.pending) (cutLines (s.buffer ++ chunk)).1) :
  wp (onData frameBytes chunk) (fun _ t => Sound t) (fun _ _ => False) s
  := by
  have hbuf : Sound { s with buffer := s.buffer ++ chunk } := by
    apply h.same
    all_goals rfl
  unfold onData
  rw [wp_bind, wp_modify, wp_bind, wp_get, wp_ite]
  split
  · apply hbuf.close
  · apply hbuf.lines
    apply hlines

/-- A request that is handled, and that can be replied to. -/
theorem Sound.handled {n : ℕ} {outcome : HandlerOutcome} (h : Sound s)
    (hrepl : s.requests[n]?.all (repliable frameBytes s outcome)) :
  wp (handled frameBytes n outcome) (fun _ t => Sound t) (fun _ _ => False) s
  := by
  unfold BridgeServer.handled
  rw [wp_bind, wp_get]
  cases hreq : s.requests[n]? with
  | none => exact h
  | some request =>
  dsimp only
  rw [wp_ite]
  split
  · exact h
  next hset =>
    rw [hreq, Option.all_some] at hrepl
    unfold repliable at hrepl
    obtain ⟨answer, hanswer⟩ : ∃ answer, replyTo request.method outcome = .ok answer := by
      cases hanswer : replyTo request.method outcome with
      | ok answer => use answer
      | error e =>
        rw [hanswer] at hrepl
        cases hrepl
    rw [hanswer] at hrepl
    have hnew : repliesOf s.output n = [] := by
      have hold := h.replies n request hreq
      unfold Replied at hold
      rw [Option.not_isSome_iff_eq_none.mp hset] at hold
      apply hold
    have hlt : n < s.requests.length := (List.getElem?_eq_some_iff.mp hreq).1
    rw [wp_bind, wp_modify]
    unfold reply
    rw [wp_bind, hanswer, wp_ofExcept]
    dsimp only
    unfold write
    rw [wp_bind, wp_get, wp_ite]
    dsimp only
    split
    next hshut =>
      rw [hshut]
      constructor
      · apply h.replies.set
        exact hnew
      · intro entry hentry m hm
        dsimp only
        rw [length_set]
        apply h.sources entry hentry m hm
      · apply h.callbacks
      · apply h.ids
      · intro _
        apply h.closed hshut
    next hshut =>
      rw [Bool.not_eq_true] at hshut
      dsimp only at hrepl
      rw [hshut, Bool.false_or] at hrepl
      obtain ⟨frame, hframe, hwritable⟩ : ∃ frame, replyFrame request.id answer = .ok frame ∧
          Writable frameBytes frame := by
        cases hframe : replyFrame request.id answer with
        | ok frame =>
          rw [hframe] at hrepl
          use frame, rfl
          simpa using hrepl
        | error e =>
          rw [hframe] at hrepl
          cases hrepl
      rw [wp_bind, hframe, wp_ofExcept]
      dsimp only
      rw [wp_ite, if_pos hwritable, wp_modify, hshut]
      constructor
      · intro m request' hreq'
        dsimp only at hreq' ⊢
        rw [List.getElem?_set] at hreq'
        split at hreq'
        next heq =>
          subst heq
          cases hreq'
          refine ⟨answer, frame, hanswer, hframe, ?_⟩
          rw [repliesOf_concat, hnew, if_pos rfl]
          rfl
        next hne =>
          apply (h.replies m request' hreq').concat
          intro heq
          apply hne (Option.some.inj heq)
      · intro entry hentry m hm
        dsimp only at hentry ⊢
        rw [length_set]
        rcases mem_append.mp hentry with hentry | hentry
        · apply h.sources entry hentry m hm
        · obtain rfl := mem_singleton.mp hentry
          cases hm
          apply hlt
      · apply h.callbacks
      · apply h.ids
      · rintro ⟨⟩

/-- A callback that can be written. -/
theorem Sound.invokeCallback {callbackId : String} {args : List HostValue} (h : Sound s)
    (hcall : callable frameBytes s callbackId args) :
  wp (invokeCallback frameBytes callbackId args) (fun _ t => Sound t) (fun _ _ => False) s
  := by
  unfold BridgeServer.invokeCallback
  rw [wp_bind, wp_get]
  dsimp only
  rw [wp_ite]
  split
  next hshut =>
    rw [wp_modify]
    constructor
    · apply h.replies
    · apply h.sources
    · apply h.callbacks.addSettled
      trivial
    · apply h.ids
    · apply h.closed
  next hshut =>
    rw [Bool.not_eq_true] at hshut
    unfold callable at hcall
    rw [hshut, Bool.false_or] at hcall
    obtain ⟨frame, hok, hwritable⟩ : ∃ frame,
        callbackFrame (.make s.nextId 0) callbackId args = .ok (.ok frame) ∧
          Writable frameBytes frame := by
      split at hcall
      next frame hframe => exact ⟨frame, hframe, by simpa using hcall⟩
      · cases hcall
    have hfree : s.pending.pending (.make s.nextId 0) = none := by
      by_contra hpend
      obtain ⟨m, hm, heq⟩ := h.ids _ hpend
      have hinteger := congrArg Decimal.integer heq
      rw [Decimal.integer_make, Decimal.integer_make] at hinteger
      have hsame := Option.some.inj hinteger
      omega
    have hadded : ∀ id, (s.pending.add (.make s.nextId 0)).pending id ≠ none →
        ∃ m, m < s.nextId + 1 ∧ id = .make m 0 := by
      intro id hid
      rcases eq_or_ne id (.make s.nextId 0) with rfl | hne
      · use s.nextId, Nat.lt_succ_self _
      · rw [Table.pending_add_of_ne hne] at hid
        obtain ⟨m, hm, heq⟩ := h.ids id hid
        use m, Nat.lt_succ_of_lt hm
    rw [wp_bind, wp_modify, wp_bind, hok, wp_ofExcept]
    dsimp only
    unfold write
    rw [wp_bind, wp_get, wp_ite, if_neg (by simp [hshut]), wp_bind, wp_ofExcept]
    dsimp only
    rw [wp_ite, if_pos hwritable, wp_modify]
    constructor
    · exact h.replies.imp fun n request hreq => hreq.concat (by rintro ⟨⟩)
    · intro entry hentry n hn
      dsimp only at hentry ⊢
      rcases mem_append.mp hentry with hentry | hentry
      · apply h.sources entry hentry n hn
      · obtain rfl := mem_singleton.mp hentry
        cases hn
    · apply h.callbacks.add hfree
    · apply hadded
    intro hshut'
    dsimp only at hshut'
    rw [hshut] at hshut'
    cases hshut'

/-! ### Runs -/

/-- An orderly action throws nothing. -/
theorem Sound.action {w : World} {a : Action} (h : Sound w.server) (ha : orderly frameBytes w a) :
  wp (codeOf frameBytes a) (fun _ t => Sound t) (fun _ _ => False) w.server
  := by
  cases a with
  | data chunk => exact h.data ha
  | handled n outcome => exact h.handled ha
  | invokeCallback callbackId args => exact h.invokeCallback ha
  | callTimeout id => exact h.settle fun _ => trivial
  | waitFor waiter method | waitTimeout method => exact h.same rfl rfl rfl rfl rfl
  | close reason => exact h.close reason

/-- In every run of orderly actions every request that is handled while the server is open is
replied to once, every callback is settled once, and nothing is thrown. -/
theorem bridge_settles_of_run {actions : List Action}
    (hord : Guarded (fun w a => some (step frameBytes w a))
      (fun w a => orderly frameBytes w a) World.start actions) :
  (actions.foldl (step frameBytes) World.start).Settles
  := by
  have hstart : Sound World.start.server ∧ World.start.thrown = [] := by
    refine ⟨⟨Indexed.Each.nil, ?_, Table.sound_empty, ?_, ?_⟩, rfl⟩
    · intro entry hentry
      cases hentry
    · intro id hid
      exact absurd rfl hid
    · intro hshut
      cases hshut
  have hend : Sound (actions.foldl (step frameBytes) World.start).server ∧
      (actions.foldl (step frameBytes) World.start).thrown = [] := by
    apply Guarded.invariant (I := fun w => Sound w.server ∧ w.thrown = []) _ hstart hord
      (run_some _ _ _)
    rintro w a w' ⟨h, hthrow⟩ ha hstep
    cases hstep
    have hwp := h.action ha
    unfold wp at hwp
    unfold step
    cases hcode : codeOf frameBytes a w.server with
    | ok u t =>
      rw [hcode] at hwp
      exact ⟨hwp, hthrow⟩
    | error e t =>
      rw [hcode] at hwp
      cases hwp
  constructor
  · apply hend.1.replies
  · apply hend.1.callbacks
  · intro hshut p hp hnil
    obtain ⟨n, hn⟩ := mem_iff_getElem?.mp hp
    have hpend := (hend.1.callbacks.settled_eq_nil_iff hn).mp hnil
    rw [hend.1.closed hshut] at hpend
    cases hpend
  · apply hend.2

/-- A request of the plugin. -/
def requestText : List Char :=
  "\x7b\"jsonrpc\":\"2.0\",\"bridgeVersion\":1,\"id\":7,\"method\":\"volund.kv.get\"\x7d\n".toList

/-- The response to the first callback. -/
def responseText : List Char :=
  "\x7b\"jsonrpc\":\"2.0\",\"bridgeVersion\":1,\"id\":1,\"result\":true\x7d\n".toList

/-- A request that is replied to, and a callback that is answered. -/
def exchange : List Action :=
  [.data requestText, .handled 0 (.returned (.str "ok")), .invokeCallback "render" [.str "tab"],
    .data responseText, .close "bridge closed"]

theorem bridge_settles_of_run_exchange :
  (exchange.foldl (step 1024) World.start).Settles
  := by
  apply bridge_settles_of_run
  decide +kernel

/-- A frame `null` and a result that cannot be encoded throw, and a callback that is too large is
left pending. -/
theorem not_bridge_settles :
  ¬ ([.data "null\n".toList].foldl (step 1024) World.start).Settles ∧
    ¬ ([.data requestText, .handled 0 (.returned .endless)].foldl (step 1024)
      World.start).Settles ∧
    ([.invokeCallback "render" []].foldl (step 16) World.start).server.pending.pending (.make 1 0) =
      some 0
  := by
  refine ⟨?_, ?_, ?_⟩
  · intro h
    have hthrow := congrArg List.length h.thrown
    revert hthrow
    decide +kernel
  · intro h
    have hthrow := congrArg List.length h.thrown
    revert hthrow
    decide +kernel
  · decide +kernel

end PluginRuntime.BridgeServer
