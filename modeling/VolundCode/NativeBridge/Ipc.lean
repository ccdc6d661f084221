import VolundCode.Lib.Dynamic
import VolundCode.Lib.Ecma
import VolundCode.Lib.Framing
import VolundCode.Lib.Promises
import VolundCode.Lib.Run
import VolundCode.Lib.Utf8

/-!
# The peer of a native worker

A peer writes its requests to a worker, a line each, and settles them by the lines that the worker
writes. Lines over a limit are not read.

Whatever the worker writes, in whatever pieces, every request is settled once, and the peer keeps no
more bytes than a line may have, as long as no line is `null`, no response to a pending request is
over the limit or has an error message without a text, no request takes the id of a pending one, and
none comes behind `close` (`requests_settle_of_run`). Each of these is missed by the code (`not_requests_settle`).
-/

namespace NativeBridge.Ipc

open Framing Js Promises Run List

/-! ### The peer -/

def newline : UInt8 := 0x0a

/-- What a promise of a request is settled with. -/
inductive Outcome where
  | resolved (result : Value)
  | rejected (message : String)

/-- How a request was settled: by a line of the worker, or by `close`. -/
inductive Settlement where
  | answered (line : List UInt8) (outcome : Outcome)
  | closed (reason : String)

structure RpcPeer where
  requests : Table Decimal Settlement
  notifications : String → List ℕ
  nextId : ℕ
  buffer : List UInt8
  discarding : Bool
  discardedBytes : ℕ
  /-- The frames that were written to the worker. -/
  output : List Json
  /-- The listeners that were called, with what they were called with. -/
  notified : List (ℕ × Value)
  /-- The sizes of lines that were reported to be too large. -/
  reports : List ℕ

/-- What the peer does, until something is thrown. -/
abbrev Code (α : Type) := Effect Thrown RpcPeer α

/-- A peer that has read nothing. -/
def RpcPeer.new : RpcPeer where
  requests := .empty
  notifications _ := []
  nextId := 1
  buffer := []
  discarding := false
  discardedBytes := 0
  output := []
  notified := []
  reports := []

/-- The frame of a line, if it has one. -/
def parseLine (line : List UInt8) : Option Json :=
  Json.parse (Utf8.decodeLossy line)

/-- The id of a frame. -/
def frameId (frame : Json) : Option Decimal :=
  match maybe (some frame) "id" with
  | some (.num id) => some id
  | _ => none

/-- What a response says of its request. -/
def frameOutcome (frame : Json) : Except Thrown Outcome := do
  let error := maybe (some frame) "error"
  if truthy error then
    return .rejected (← toText (orElse (maybe error "message") (.str "worker RPC failed")))
  else return .resolved (maybe (some frame) "result")

/-- The listeners of a method are called, and forgotten. -/
def notify (frame : Json) : Code Unit := do
  let method ← Effect.ofExcept (field (some frame) "method")
  match method with
  | some (.str name) =>
    if name ≠ "" then
      modify fun s =>
        { s with
          notified := s.notified ++
            (s.notifications name).map fun listener => (listener, maybe (some frame) "params")
          notifications := Function.update s.notifications name [] }
  | _ => pure ()

/-- The request of an id is settled by a response. -/
def answer (line : List UInt8) (frame : Json) (id : Decimal) : Code Unit := do
  let s ← get
  if (s.requests.pending id).isSome then
    match frameOutcome frame with
    | .ok outcome =>
      modify fun s => { s with requests := s.requests.settle id (.answered line outcome) }
    | .error e =>
      modify fun s => { s with requests := s.requests.delete id }
      throw e

def handleLine (line : List UInt8) : Code Unit := do
  match parseLine line with
  | none => return
  | some frame =>
    notify frame
    match frameId frame with
    | none => return
    | some id => answer line frame id

/-- The digits at the start of a text, after a sign if there is one. -/
def signedDigits : List Char → Option (List Char)
  | '-' :: s =>
    let digits := s.takeWhile Char.isDigit
    if digits = [] then none else some ('-' :: digits)
  | s =>
    let digits := s.takeWhile Char.isDigit
    if digits = [] then none else some digits

/-- `/"id"\s*:\s*(-?\d+)/` at the start of a text. -/
def idHere (s : List Char) : Option (List Char) :=
  match s with
  | '"' :: 'i' :: 'd' :: '"' :: s =>
    match s.dropWhile Ecma.isSpace with
    | ':' :: s => signedDigits (s.dropWhile Ecma.isSpace)
    | _ => none
  | _ => none

/-- `/"id"\s*:\s*(-?\d+)/.exec`. -/
def idInHead : List Char → Option (List Char)
  | [] => none
  | c :: s => (idHere (c :: s)).or (idInHead s)

/-- The number that digits stand for, after a sign if there is one. -/
def signedNumber : List Char → Decimal
  | '-' :: s => .make (-(Nat.ofDigitChars 10 s 0 : ℤ)) 0
  | s => .make (Nat.ofDigitChars 10 s 0) 0

section Limit

variable (maxLineBytes : ℕ)

def rejectOversizedHead (head : List UInt8) : Code Unit :=
  let id := idInHead (Utf8.decodeLossy (head.take 4096))
  let error : Json := .obj
    [("code", .num (.make (-32600) 0)),
      ("message", .str ("ipc line exceeds max_line_bytes (" ++ toString maxLineBytes ++ " bytes)"))]
  let frame : Json := .obj
    ([("jsonrpc", .str "2.0")] ++ Json.optional "id" (id.map fun id => .num (signedNumber id)) ++
      [("error", error)])
  modify fun s => { s with output := s.output ++ [frame] }

def reportLineTooLarge (bytes : ℕ) : Code Unit :=
  modify fun s => { s with reports := s.reports ++ [bytes] }

/-- A line that ends in what was read. -/
def onLine (line : List UInt8) : Code Unit := do
  let s ← get
  if s.discarding then
    reportLineTooLarge (s.discardedBytes + line.length)
    modify fun s => { s with discarding := false, discardedBytes := s.discardedBytes + line.length }
  else if maxLineBytes < line.length then
    rejectOversizedHead maxLineBytes line
    reportLineTooLarge line.length
  else if 0 < line.length then handleLine line

/-- What is left behind the last line. -/
def onRest (rest : List UInt8) : Code Unit := do
  let s ← get
  if s.discarding then
    modify fun s => { s with discardedBytes := s.discardedBytes + rest.length }
  else if maxLineBytes < rest.length then
    rejectOversizedHead maxLineBytes rest
    modify fun s => { s with discarding := true, discardedBytes := rest.length }
  else modify fun s => { s with buffer := rest }

def onData (chunk : List UInt8) : Code Unit := do
  let s ← get
  let cut := frames [newline] [] (s.buffer ++ chunk)
  modify fun s => { s with buffer := [] }
  cut.1.forM (onLine maxLineBytes)
  onRest maxLineBytes cut.2

end Limit

/-- `requestWithId`: there are no parameters where `JSON.stringify` throws on them. -/
def requestWithId (id : Decimal) (method : String) (params : Option Value) : Code Unit := do
  modify fun s => { s with requests := s.requests.add id }
  match params with
  | none => throw (.typeError "params")
  | some params =>
    let frame : Json := .obj
      ([("jsonrpc", .str "2.0"), ("id", .num id), ("method", .str method)] ++
        Json.optional "params" params)
    modify fun s => { s with output := s.output ++ [frame] }

/-- `request`. -/
def request (method : String) (params : Option Value) : Code Unit := do
  let s ← get
  modify fun s => { s with nextId := s.nextId + 1 }
  requestWithId (.make s.nextId 0) method params

def notification (listener : ℕ) (method : String) : Code Unit :=
  modify fun s =>
    { s with
      notifications :=
        Function.update s.notifications method (s.notifications method ++ [listener]) }

def close (reason : String) : Code Unit :=
  modify fun s => { s with requests := s.requests.settleAll (.closed reason) }

/-! ### Runs -/

/-- What happens to a peer. -/
inductive Action where
  | request (method : String) (params : Option Value)
  | requestWithId (id : Decimal) (method : String) (params : Option Value)
  | notification (listener : ℕ) (method : String)
  | data (chunk : List UInt8)
  | close (reason : String)

/-- A peer with what has happened to it: whether it was closed, what has escaped from the handler of
data, the bytes that came, and the lines of them, each with the number of requests that had been
made when it came. -/
structure World where
  peer : RpcPeer
  closed : Bool
  escaped : List Thrown
  stream : List UInt8
  received : List (ℕ × List UInt8)

/-- A new peer. -/
def World.start : World where
  peer := .new
  closed := false
  escaped := []
  stream := []
  received := []

/-- The peer after some code, whether it throws or not. -/
def after (code : Code Unit) (s : RpcPeer) : RpcPeer :=
  match code s with
  | .ok _ t => t
  | .error _ t => t

/-- What some code throws. -/
def thrown (code : Code Unit) (s : RpcPeer) : List Thrown :=
  match code s with
  | .ok _ _ => []
  | .error e _ => [e]

/-- The lines that end in a chunk behind a stream. -/
def newLines (stream chunk : List UInt8) : List (List UInt8) :=
  pieces [newline] (rest [newline] stream ++ chunk)

/-- What has happened after an action. -/
def step (maxLineBytes : ℕ) (w : World) : Action → World
  | .request method params => { w with peer := after (request method params) w.peer }
  | .requestWithId id method params =>
    { w with peer := after (requestWithId id method params) w.peer }
  | .notification listener method =>
    { w with peer := after (notification listener method) w.peer }
  | .data chunk =>
    { w with
      peer := after (onData maxLineBytes chunk) w.peer
      escaped := w.escaped ++ thrown (onData maxLineBytes chunk) w.peer
      stream := w.stream ++ chunk
      received := w.received ++
        (newLines w.stream chunk).map fun line => (w.peer.requests.promises.length, line) }
  | .close reason => { w with peer := after (close reason) w.peer, closed := true }

/-! ### Lines -/

/-- The id that a line has, if it is the response to a request. -/
def responseId (line : List UInt8) : Option Decimal :=
  (parseLine line).bind frameId

/-- The requests after a line that does not throw. -/
def settledBy (maxLineBytes : ℕ) (requests : Table Decimal Settlement) (line : List UInt8) :
    Table Decimal Settlement :=
  if maxLineBytes < line.length then requests
  else
    match (parseLine line).bind fun frame => (frameId frame).map fun id => (id, frameOutcome frame) with
    | some (id, .ok outcome) => requests.settle id (.answered line outcome)
    | _ => requests

/-- A line that is no response to a pending request if it is over the limit, and otherwise is not
`null` and has an outcome for a pending request. -/
def Harmless (maxLineBytes : ℕ) (pending : Decimal → Prop) (line : List UInt8) : Prop :=
  if maxLineBytes < line.length then ∀ id, responseId line = some id → ¬ pending id
  else
    parseLine line ≠ some .null ∧
      ∀ frame id, parseLine line = some frame → frameId frame = some id → pending id →
        ∃ outcome, frameOutcome frame = .ok outcome

/-- Lines that are harmless when they come, where a line settles what is pending. -/
def AllHarmless (maxLineBytes : ℕ) : (Decimal → Prop) → List (List UInt8) → Prop
  | _, [] => True
  | pending, line :: lines =>
    Harmless maxLineBytes pending line ∧
      AllHarmless maxLineBytes (fun id => pending id ∧ responseId line ≠ some id) lines

open Effect

variable {maxLineBytes : ℕ} {s : RpcPeer}

/-- Listeners of a frame that is not `null`. -/
theorem wp_notify {frame : Json} {Q : Unit → RpcPeer → Prop} {E : Thrown → RpcPeer → Prop}
    (hframe : frame ≠ .null)
    (h : ∀ t, t.requests = s.requests → t.discarding = s.discarding → t.buffer = s.buffer →
      Q () t) :
  wp (notify frame) Q E s
  := by
  have hfield : field (some frame) "method" = .ok (maybe (some frame) "method") := by
    cases frame with
    | null => exact absurd rfl hframe
    | _ => rfl
  unfold notify
  rw [hfield, wp_bind, wp_ofExcept]
  dsimp only
  split
  · rw [wp_ite]
    split
    · rw [wp_modify]
      apply h
      all_goals rfl
    · rw [wp_pure]
      apply h _ rfl rfl rfl
  · rw [wp_pure]
    apply h _ rfl rfl rfl

/-- A harmless line settles what it responds to. -/
theorem wp_onLine {line : List UInt8} (hdisc : s.discarding = false)
    (hline : Harmless maxLineBytes (fun id => s.requests.pending id ≠ none) line) :
  wp (onLine maxLineBytes line)
    (fun _ t => t.requests = settledBy maxLineBytes s.requests line ∧ t.discarding = false ∧
      t.buffer = s.buffer)
    (fun _ _ => False) s
  := by
  unfold onLine Harmless settledBy at *
  rw [wp_bind, wp_get, hdisc]
  simp only [Bool.false_eq_true, if_false]
  by_cases hlarge : maxLineBytes < line.length
  · rw [if_pos hlarge, if_pos hlarge]
    unfold rejectOversizedHead reportLineTooLarge
    simp [hdisc]
  rw [if_neg hlarge] at hline ⊢
  rw [if_neg hlarge]
  obtain ⟨hnull, hout⟩ := hline
  by_cases hempty : 0 < line.length
  · rw [if_pos hempty]
    unfold handleLine
    cases hparse : parseLine line with
    | none =>
      refine ⟨rfl, hdisc, rfl⟩
    | some frame =>
    dsimp only [Option.bind_some]
    rw [wp_bind]
    apply wp_notify
    · rintro rfl
      apply hnull hparse
    intro t hreqs ht hbuf
    cases hid : frameId frame with
    | none => exact ⟨hreqs, ht.trans hdisc, hbuf⟩
    | some id =>
    dsimp only [Option.map_some]
    unfold answer
    rw [wp_bind, wp_get, wp_ite, hreqs]
    split
    next hpend =>
      obtain ⟨outcome, hok⟩ := hout frame id hparse hid
        (Option.isSome_iff_ne_none.mp hpend)
      rw [hok]
      dsimp only
      rw [wp_modify]
      exact ⟨by rw [hreqs], ht.trans hdisc, hbuf⟩
    next hpend =>
      have hnone : s.requests.pending id = none := by simpa using hpend
      refine ⟨?_, ht.trans hdisc, hbuf⟩
      rw [hreqs]
      cases frameOutcome frame with
      | error e => rfl
      | ok outcome =>
        dsimp only
        unfold Table.settle
        rw [hnone]
  rw [if_neg hempty]
  have hnil : line = [] := by simpa using hempty
  subst hnil
  refine ⟨?_, hdisc, rfl⟩
  have hparse : parseLine [] = none := by decide +kernel
  rw [hparse]
  rfl

/-- What waits for a response. -/
def Waits (requests : Table Decimal Settlement) (id : Decimal) : Prop :=
  requests.pending id ≠ none

variable {requests : Table Decimal Settlement} {line : List UInt8} {lines : List (List UInt8)}
  {id : Decimal} {fits : ℕ → Decimal → Settlement → Prop}

/-- A line settles nothing, or the request it responds to. -/
theorem settledBy_cases (requests : Table Decimal Settlement) (line : List UInt8) :
  settledBy maxLineBytes requests line = requests ∨
    ∃ frame id outcome, parseLine line = some frame ∧ frameId frame = some id ∧
      frameOutcome frame = .ok outcome ∧
      settledBy maxLineBytes requests line = requests.settle id (.answered line outcome)
  := by
  unfold settledBy
  split
  · left
    rfl
  split
  next id outcome heq =>
    right
    obtain ⟨frame, hparse, hframe⟩ := Option.bind_eq_some_iff.mp heq
    obtain ⟨id', hid, hpair⟩ := Option.map_eq_some_iff.mp hframe
    obtain ⟨rfl, hout⟩ := Prod.mk.inj hpair
    use frame, id', outcome
  · left
    rfl

theorem length_settledBy :
  (settledBy maxLineBytes requests line).promises.length = requests.promises.length
  := by
  rcases settledBy_cases requests line with heq | ⟨_, _, _, -, -, -, heq⟩
  · rw [heq]
  · rw [heq, Table.length_settle]

/-- Nothing new waits after a line. -/
theorem pending_settledBy_cases (id : Decimal) :
  (settledBy maxLineBytes requests line).pending id = none ∨
    (settledBy maxLineBytes requests line).pending id = requests.pending id
  := by
  rcases settledBy_cases requests line with heq | ⟨_, _, _, -, -, -, heq⟩
  · right
    rw [heq]
  · rw [heq]
    apply Table.pending_settle_cases

theorem pending_settledBy_of_none (h : requests.pending id = none) :
  (settledBy maxLineBytes requests line).pending id = none
  := by
  rcases pending_settledBy_cases id with hnone | heq
  · apply hnone
  · rw [heq, h]

/-- After a harmless line its request does not wait. -/
theorem pending_settledBy (hline : Harmless maxLineBytes (Waits requests) line)
    (hid : responseId line = some id) :
  (settledBy maxLineBytes requests line).pending id = none
  := by
  obtain ⟨frame, hparse, hframe⟩ := Option.bind_eq_some_iff.mp hid
  by_cases hpend : requests.pending id = none
  · apply pending_settledBy_of_none hpend
  unfold Harmless at hline
  split at hline
  · apply absurd hpend (hline id hid)
  next hlarge =>
    obtain ⟨outcome, hok⟩ := hline.2 frame id hparse hframe hpend
    unfold settledBy
    rw [if_neg hlarge, hparse]
    simp only [Option.bind_some, hframe, Option.map_some, hok]
    apply Table.pending_settle_self

/-- What waits after a harmless line has waited before, and is not responded to by it. -/
theorem waits_settledBy (hline : Harmless maxLineBytes (Waits requests) line) :
  Waits (settledBy maxLineBytes requests line) id ↔ Waits requests id ∧ responseId line ≠ some id
  := by
  unfold Waits
  constructor
  · intro h
    exact ⟨fun hnone => h (pending_settledBy_of_none hnone),
      fun hid => h (pending_settledBy hline hid)⟩
  rintro ⟨hpend, hid⟩
  rcases settledBy_cases requests line with heq | ⟨frame, id', _, hparse, hframe, -, heq⟩
  · rw [heq]
    apply hpend
  rw [heq, Table.pending_settle_of_ne]
  · apply hpend
  rintro rfl
  apply hid
  unfold responseId
  rw [hparse]
  apply hframe

theorem AllHarmless.congr {p q : Decimal → Prop} (h : ∀ id, p id ↔ q id)
    (hlines : AllHarmless maxLineBytes p lines) :
  AllHarmless maxLineBytes q lines
  := by
  obtain rfl : p = q := funext fun id => propext (h id)
  apply hlines

/-- Nothing new waits after lines. -/
theorem pending_foldl_cases (id : Decimal) :
  (lines.foldl (settledBy maxLineBytes) requests).pending id = none ∨
    (lines.foldl (settledBy maxLineBytes) requests).pending id = requests.pending id
  := by
  induction lines generalizing requests with
  | nil =>
    right
    rfl
  | cons line lines ih =>
  rw [foldl_cons]
  rcases ih with hnone | heq
  · left
    apply hnone
  · rw [heq]
    apply pending_settledBy_cases

theorem pending_foldl_of_none (h : requests.pending id = none) :
  (lines.foldl (settledBy maxLineBytes) requests).pending id = none
  := by
  rcases pending_foldl_cases id with hnone | heq
  · apply hnone
  · rw [heq, h]

theorem length_foldl :
  (lines.foldl (settledBy maxLineBytes) requests).promises.length = requests.promises.length
  := by
  induction lines generalizing requests with
  | nil => rfl
  | cons line lines ih => rw [foldl_cons, ih, length_settledBy]

/-- After harmless lines none of their requests waits. -/
theorem pending_foldl (hlines : AllHarmless maxLineBytes (Waits requests) lines)
    (hline : line ∈ lines) (hid : responseId line = some id) :
  (lines.foldl (settledBy maxLineBytes) requests).pending id = none
  := by
  induction lines generalizing requests with
  | nil => cases hline
  | cons first lines ih =>
  obtain ⟨hfirst, hrest⟩ := hlines
  rw [foldl_cons]
  rcases mem_cons.mp hline with rfl | hline
  · apply pending_foldl_of_none (pending_settledBy hfirst hid)
  apply ih _ hline
  apply hrest.congr
  intro id
  rw [waits_settledBy hfirst]

/-- What lines settle fits the requests, if the outcomes of the lines do. -/
theorem sound_foldl (h : requests.Sound fits)
    (hfits : ∀ line ∈ lines, ∀ n frame id outcome, n < requests.promises.length →
      parseLine line = some frame → frameId frame = some id →
      frameOutcome frame = .ok outcome → fits n id (.answered line outcome)) :
  (lines.foldl (settledBy maxLineBytes) requests).Sound fits
  := by
  induction lines generalizing requests with
  | nil => exact h
  | cons line lines ih =>
  rw [foldl_cons]
  apply ih
  · rcases settledBy_cases requests line with heq | ⟨frame, id, outcome, hparse, hid, hok, heq⟩
    · rw [heq]
      apply h
    rw [heq]
    apply h.settle
    intro n hn
    apply hfits line mem_cons_self n frame id outcome (h.lt_length hn) hparse hid hok
  · intro l hl n
    rw [length_settledBy]
    apply hfits l (mem_cons_of_mem line hl) n

/-- Harmless lines settle what they respond to. -/
theorem wp_lines (hdisc : s.discarding = false)
    (hlines : AllHarmless maxLineBytes (Waits s.requests) lines) :
  wp (lines.forM (onLine maxLineBytes))
    (fun _ t => t.requests = lines.foldl (settledBy maxLineBytes) s.requests ∧
      t.discarding = false ∧ t.buffer = s.buffer)
    (fun _ _ => False) s
  := by
  induction lines generalizing s with
  | nil => exact ⟨rfl, hdisc, rfl⟩
  | cons line lines ih =>
  obtain ⟨hline, hrest⟩ := hlines
  change wp (onLine maxLineBytes line >>= fun _ => lines.forM (onLine maxLineBytes)) _ _ s
  rw [wp_bind]
  apply wp_mono (wp_onLine hdisc hline)
  · rintro _ t ⟨hreqs, ht, hbuf⟩
    rw [foldl_cons, ← hreqs, ← hbuf]
    apply ih ht
    apply hrest.congr
    intro id
    rw [hreqs, waits_settledBy hline]
  · intro _ _ h
    apply h

/-- What a peer holds of the stream: what follows the last line of it, unless that is too large. -/
def Holding (maxLineBytes : ℕ) (s : RpcPeer) (stream : List UInt8) : Prop :=
  if s.discarding then s.buffer = [] ∧ maxLineBytes < (rest [newline] stream).length
  else s.buffer = rest [newline] stream ∧ (rest [newline] stream).length ≤ maxLineBytes

theorem wp_onRest {stream : List UInt8} (hdisc : s.discarding = false) (hbuf : s.buffer = []) :
  wp (onRest maxLineBytes (rest [newline] stream))
    (fun _ t => t.requests = s.requests ∧ Holding maxLineBytes t stream) (fun _ _ => False) s
  := by
  unfold onRest rejectOversizedHead
  rw [wp_bind, wp_get, hdisc]
  simp only [Bool.false_eq_true, if_false]
  rw [wp_ite]
  split
  next hlarge =>
    rw [wp_bind, wp_modify, wp_modify]
    exact ⟨rfl, hbuf, hlarge⟩
  next hlarge =>
    rw [wp_modify]
    use rfl
    unfold Holding
    rw [hdisc]
    exact ⟨rfl, Nat.le_of_not_lt hlarge⟩

/-- A line that is thrown away until it ends. -/
theorem wp_onLine_discarding (hdisc : s.discarding) :
  wp (onLine maxLineBytes line)
    (fun _ t => t.requests = s.requests ∧ t.discarding = false ∧ t.buffer = s.buffer)
    (fun _ _ => False) s
  := by
  unfold onLine reportLineTooLarge
  rw [wp_bind, wp_get, hdisc]
  simp

/-- Harmless lines that end in a chunk settle what they respond to. -/
theorem wp_onData {stream chunk : List UInt8} (hhold : Holding maxLineBytes s stream)
    (hlines : AllHarmless maxLineBytes (Waits s.requests) (newLines stream chunk)) :
  wp (onData maxLineBytes chunk)
    (fun _ t => t.requests = (newLines stream chunk).foldl (settledBy maxLineBytes) s.requests ∧
      Holding maxLineBytes t (stream ++ chunk))
    (fun _ _ => False) s
  := by
  have hsep : [newline] ≠ [] := cons_ne_nil _ _
  have hrest := rest_append hsep stream chunk
  unfold newLines at hlines ⊢
  unfold onData
  rw [wp_bind, wp_get, wp_bind, wp_modify, wp_bind]
  suffices h : ∀ t : RpcPeer, t.requests = s.requests → t.discarding = s.discarding →
      t.buffer = [] →
      wp ((frames [newline] [] (s.buffer ++ chunk)).1.forM (onLine maxLineBytes))
        (fun _ => wp (onRest maxLineBytes (frames [newline] [] (s.buffer ++ chunk)).2)
          (fun _ u => u.requests =
              (pieces [newline] (rest [newline] stream ++ chunk)).foldl (settledBy maxLineBytes)
                s.requests ∧ Holding maxLineBytes u (stream ++ chunk))
          fun _ _ => False)
        (fun _ _ => False) t by
    apply h
    all_goals rfl
  intro t hreqs hdisc hempty
  unfold Holding at hhold
  cases hs : s.discarding with
  | false =>
    rw [hs] at hhold hdisc
    simp only [Bool.false_eq_true, if_false] at hhold
    rw [hhold.1]
    rw [← hreqs] at hlines ⊢
    apply wp_mono (wp_lines hdisc hlines)
    · rintro _ u ⟨hu, hudisc, hubuffer⟩
      rw [← hu]
      change wp (onRest maxLineBytes (rest [newline] (rest [newline] stream ++ chunk))) _ _ u
      rw [← hrest]
      apply wp_onRest hudisc (hubuffer.trans hempty)
    · intro _ _ h
      apply h
  | true =>
  rw [hs] at hhold hdisc
  simp only [if_true] at hhold
  obtain ⟨hbuf, hlarge⟩ := hhold
  have hfree : Free [newline] (rest [newline] stream) := free_rest hsep stream
  have hwhole := frames_singleton_append newline (rest [newline] stream) [] chunk
  rw [append_nil, ← frames_free_append hfree] at hwhole
  have hpieces := congrArg Prod.fst hwhole
  have hlast := hrest.trans (congrArg Prod.snd hwhole)
  change pieces [newline] (rest [newline] stream ++ chunk) = _ at hpieces
  rw [hpieces] at hlines ⊢
  rw [hbuf, nil_append]
  generalize frames [newline] [] chunk = cut at hlast hlines ⊢
  obtain ⟨ends, last⟩ := cut
  cases ends with
  | nil =>
    -- the line that is thrown away goes on
    change wp (onRest maxLineBytes last) _ _ t
    unfold onRest
    rw [wp_bind, wp_get, hdisc]
    simp only [if_true]
    rw [wp_modify]
    use hreqs
    unfold Holding
    rw [hlast]
    simp only [hdisc, if_true]
    use hempty
    rw [length_append]
    apply Nat.lt_of_lt_of_le hlarge (Nat.le_add_right _ _)
  | cons line lines =>
  obtain ⟨hline, htail⟩ := hlines
  have htoo : maxLineBytes < (rest [newline] stream ++ line).length := by
    rw [length_append]
    apply Nat.lt_of_lt_of_le hlarge (Nat.le_add_right _ _)
  have hsame : settledBy maxLineBytes s.requests (rest [newline] stream ++ line) =
      s.requests := if_pos htoo
  unfold Harmless at hline
  rw [if_pos htoo] at hline
  change wp (onLine maxLineBytes line >>= fun _ => lines.forM (onLine maxLineBytes)) _ _ t
  rw [wp_bind]
  apply wp_mono (wp_onLine_discarding hdisc)
  · rintro _ u ⟨hu, hudisc, hubuffer⟩
    dsimp only [List.modifyHead]
    rw [foldl_cons, hsame]
    rw [← hreqs, ← hu] at htail ⊢
    apply wp_mono
    · apply wp_lines hudisc
      apply htail.congr
      intro id
      constructor
      · apply And.left
      intro hid
      use hid
      intro hresp
      apply hline id hresp
      rw [← hreqs, ← hu]
      apply hid
    · rintro _ v ⟨hv, hvdiscarding, hvbuffer⟩
      rw [← hv]
      dsimp only at hlast
      rw [if_neg (cons_ne_nil _ _)] at hlast
      rw [← hlast]
      apply wp_onRest hvdiscarding
      rw [hvbuffer, hubuffer, hempty]
    · intro _ _ h
      apply h
  · intro _ _ h
    apply h

/-! ### Runs -/

/-- What does no harm: a request under an id that does not wait, before the end, and lines that are
harmless. -/
def Orderly (maxLineBytes : ℕ) (w : World) : Action → Prop
  | .request _ _ => w.closed = false ∧ w.peer.requests.pending (.make w.peer.nextId 0) = none
  | .requestWithId id _ _ => w.closed = false ∧ w.peer.requests.pending id = none
  | .data chunk => AllHarmless maxLineBytes (Waits w.peer.requests) (newLines w.stream chunk)
  | _ => True

/-- A settlement of the request `n`: by a response with its own id that came after it, as the
response says, or by the end. -/
def Settled (received : List (ℕ × List UInt8)) (closed : Bool) (n : ℕ) (id : Decimal) :
    Settlement → Prop
  | .answered line outcome =>
    (∃ count, (count, line) ∈ received ∧ n < count) ∧
      ∃ frame, parseLine line = some frame ∧ frameId frame = some id ∧
        frameOutcome frame = .ok outcome
  | .closed _ => closed

/-- Nothing has escaped from the handler of data. Every request waits under its id and has not been
settled, or it has been settled once, by its response or by the end. None waits for which the
response has come, or after the end. The peer keeps no more than a line. -/
structure World.Settles (maxLineBytes : ℕ) (w : World) : Prop where
  escaped : w.escaped = []
  once : w.peer.requests.Sound (Settled w.received w.closed)
  lines : w.received.map Prod.snd = pieces [newline] w.stream
  answered : ∀ entry ∈ w.received, ∀ n < entry.1, ∀ p, w.peer.requests.promises[n]? = some p →
    responseId entry.2 = some p.key → p.settled ≠ []
  closed : w.closed → ∀ p ∈ w.peer.requests.promises, p.settled ≠ []
  bounded : w.peer.buffer.length ≤ maxLineBytes

/-- What holds after every orderly action. -/
structure World.Sound (maxLineBytes : ℕ) (w : World) : Prop where
  escaped : w.escaped = []
  once : w.peer.requests.Sound (Settled w.received w.closed)
  lines : w.received.map Prod.snd = pieces [newline] w.stream
  counts : ∀ entry ∈ w.received, entry.1 ≤ w.peer.requests.promises.length
  answered : ∀ entry ∈ w.received, ∀ n < entry.1, ∀ id, responseId entry.2 = some id →
    w.peer.requests.pending id ≠ some n
  closed : w.closed → ∀ id, w.peer.requests.pending id = none
  holding : Holding maxLineBytes w.peer w.stream

variable {w : World}

theorem World.Sound.settles (h : w.Sound maxLineBytes) :
  w.Settles maxLineBytes
  := by
  constructor
  · apply h.escaped
  · apply h.once
  · apply h.lines
  · intro entry hentry n hn p hp hid hnil
    apply h.answered entry hentry n hn p.key hid
    apply (h.once.settled_eq_nil_iff hp).mp hnil
  · intro hshut p hp hnil
    obtain ⟨n, hn⟩ := mem_iff_getElem?.mp hp
    have hpend := (h.once.settled_eq_nil_iff hn).mp hnil
    rw [h.closed hshut] at hpend
    cases hpend
  have hhold := h.holding
  unfold Holding at hhold
  split at hhold
  · rw [hhold.1]
    apply Nat.zero_le
  · rw [hhold.1]
    apply hhold.2

theorem Settled.mono {received received' : List (ℕ × List UInt8)} {closed closed' : Bool} {n : ℕ}
    {settlement : Settlement} (hrecv : received ⊆ received')
    (hshut : closed → closed') (h : Settled received closed n id settlement) :
  Settled received' closed' n id settlement
  := by
  cases settlement with
  | answered line outcome =>
    obtain ⟨⟨count, hmem, hn⟩, hframe⟩ := h
    exact ⟨⟨count, hrecv hmem, hn⟩, hframe⟩
  | closed reason => exact hshut h

theorem requests_requestWithId (id : Decimal) (method : String) (params : Option Value)
    (s : RpcPeer) :
  (after (requestWithId id method params) s).requests = s.requests.add id
  := by
  cases params with
  | none | some params => rfl

theorem Holding.requestWithId {stream : List UInt8} (h : Holding maxLineBytes s stream)
    (id : Decimal) (method : String) (params : Option Value) :
  Holding maxLineBytes (after (requestWithId id method params) s) stream
  := by
  cases params with
  | none | some params => exact h

/-- A request under an id that does not wait. -/
theorem World.Sound.add (h : w.Sound maxLineBytes) (hshut : w.closed = false)
    (hid : w.peer.requests.pending id = none) (hreqs : s.requests = w.peer.requests.add id)
    (hhold : Holding maxLineBytes s w.stream) :
  World.Sound maxLineBytes { w with peer := s }
  := by
  constructor
  · apply h.escaped
  · rw [hreqs]
    apply h.once.add hid
  · apply h.lines
  · intro entry hentry
    rw [hreqs, Table.length_add]
    apply Nat.le_succ_of_le (h.counts entry hentry)
  · intro entry hentry n hn id' hid' hpend
    rw [hreqs] at hpend
    rcases eq_or_ne id' id with rfl | hne
    · rw [Table.pending_add_self] at hpend
      have hle := h.counts entry hentry
      have heq := Option.some.inj hpend
      omega
    · rw [Table.pending_add_of_ne hne] at hpend
      apply h.answered entry hentry n hn id' hid' hpend
  · intro hshut'
    rw [hshut] at hshut'
    cases hshut'
  · apply hhold

/-- Harmless lines. -/
theorem World.Sound.data {chunk : List UInt8} (h : w.Sound maxLineBytes)
    (hlines : AllHarmless maxLineBytes (Waits w.peer.requests) (newLines w.stream chunk)) :
  (step maxLineBytes w (.data chunk)).Sound maxLineBytes
  := by
  have hwp := wp_onData h.holding hlines
  unfold wp at hwp
  cases hdata : onData maxLineBytes chunk w.peer with
  | error e t =>
    rw [hdata] at hwp
    cases hwp
  | ok u t =>
  rw [hdata] at hwp
  obtain ⟨hreqs, hhold⟩ := hwp
  have hafter : after (onData maxLineBytes chunk) w.peer = t := by
    unfold after
    rw [hdata]
  have hthrow : thrown (onData maxLineBytes chunk) w.peer = [] := by
    unfold thrown
    rw [hdata]
  unfold NativeBridge.Ipc.step
  dsimp only
  rw [hafter, hthrow]
  constructor
  · exact (append_nil _).trans h.escaped
  · dsimp only
    rw [hreqs]
    apply sound_foldl
    · apply h.once.imp
      intro n k v _ hv
      apply hv.mono (subset_append_left _ _) id
    · intro line hline n frame k outcome hn hparse hid hok
      refine ⟨⟨_, mem_append_right _ (mem_map.mpr ⟨line, hline, rfl⟩), hn⟩, ?_⟩
      exact ⟨frame, hparse, hid, hok⟩
  · dsimp only
    rw [map_append, h.lines, pieces_append (cons_ne_nil _ _), map_map]
    congr 1
    apply map_id
  · intro entry hentry
    dsimp only at hentry ⊢
    rw [hreqs, length_foldl]
    rcases mem_append.mp hentry with hentry | hentry
    · apply h.counts entry hentry
    · obtain ⟨line, -, rfl⟩ := mem_map.mp hentry
      apply Nat.le_refl
  · intro entry hentry n hn k hk hpend
    dsimp only at hentry hpend
    rw [hreqs] at hpend
    rcases mem_append.mp hentry with hentry | hentry
    · rcases pending_foldl_cases k with hnone | heq
      · rw [hnone] at hpend
        cases hpend
      · rw [heq] at hpend
        apply h.answered entry hentry n hn k hk hpend
    · obtain ⟨line, hline, rfl⟩ := mem_map.mp hentry
      rw [pending_foldl hlines hline hk] at hpend
      cases hpend
  · intro hshut k
    dsimp only
    rw [hreqs]
    apply pending_foldl_of_none (h.closed hshut k)
  · apply hhold

/-- All that waits is settled at the end. -/
theorem World.Sound.close (reason : String) (h : w.Sound maxLineBytes) :
  (step maxLineBytes w (.close reason)).Sound maxLineBytes
  := by
  constructor
  · apply h.escaped
  · apply Table.Sound.settleAll
    · apply h.once.imp
      intro n k v _ hv
      exact hv.mono (List.Subset.refl _) fun _ => rfl
    · intro n k _
      rfl
  · apply h.lines
  · intro entry hentry
    exact (h.counts entry hentry).trans_eq Table.length_settleAll.symm
  · intro entry hentry n hn k hk hpend
    cases hpend
  · intro _ k
    rfl
  · apply h.holding

theorem World.Sound.step {a : Action} (h : w.Sound maxLineBytes) (ha : Orderly maxLineBytes w a) :
  (step maxLineBytes w a).Sound maxLineBytes
  := by
  cases a with
  | request method params =>
    apply h.add ha.1 ha.2
    · apply requests_requestWithId
    · have hnext : Holding maxLineBytes { w.peer with nextId := w.peer.nextId + 1 } w.stream :=
        h.holding
      exact hnext.requestWithId (.make w.peer.nextId 0) method params
  | requestWithId id method params =>
    apply h.add ha.1 ha.2
    · apply requests_requestWithId
    · exact h.holding.requestWithId id method params
  | notification listener method =>
    exact ⟨h.escaped, h.once, h.lines, h.counts, h.answered, h.closed, h.holding⟩
  | data chunk => exact h.data ha
  | close reason => exact h.close reason

/-- In every run of orderly actions nothing escapes, and every request is settled once, by its
response or by the end. -/
theorem requests_settle_of_run {actions : List Action}
    (hord : Guarded (fun w a => some (step maxLineBytes w a)) (Orderly maxLineBytes)
      World.start actions) :
  (actions.foldl (step maxLineBytes) World.start).Settles maxLineBytes
  := by
  have hstart : World.start.Sound maxLineBytes := by
    constructor
    · rfl
    · apply Table.sound_empty
    · rfl
    · intro entry hentry
      cases hentry
    · intro entry hentry
      cases hentry
    · intro hshut
      cases hshut
    · exact ⟨rfl, Nat.zero_le _⟩
  apply World.Sound.settles
  apply Guarded.invariant (I := fun w => w.Sound maxLineBytes) _ hstart hord (run_some _ _ _)
  intro w a w' h ha hstep
  cases hstep
  exact h.step ha

/-- The bytes of a text. -/
def textBytes (text : String) : List UInt8 :=
  Utf8.encode text.toList

/-- A request, its response in two pieces with something else before it, and the end. -/
def answeredRun : List Action :=
  [.request "fs.diff" (some none), .data (textBytes "not-json\n\x7b\"id\":"),
    .data (textBytes "1,\"result\":\"ok\"\x7d\n"), .close "worker closed"]

theorem requests_settle_of_run_answered :
  (answeredRun.foldl (step 64) World.start).Settles 64
  := by
  apply requests_settle_of_run
  have hfirst : newLines [] (textBytes "not-json\n\x7b\"id\":") = [textBytes "not-json"] := by
    decide +kernel
  have hsecond : newLines (textBytes "not-json\n\x7b\"id\":")
      (textBytes "1,\"result\":\"ok\"\x7d\n") =
        [textBytes "\x7b\"id\":1,\"result\":\"ok\"\x7d"] := by
    decide +kernel
  have hgarbage : parseLine (textBytes "not-json") = none := by
    rw [← Option.isNone_iff_eq_none]
    decide +kernel
  have hframe : ((parseLine (textBytes "\x7b\"id\":1,\"result\":\"ok\"\x7d")).all fun frame =>
      (frameId frame).isSome && (frameOutcome frame).isOk) := by
    decide +kernel
  refine ⟨⟨rfl, rfl⟩, ?_, ?_, trivial, trivial⟩
  · change AllHarmless 64 _ (newLines [] _)
    rw [hfirst]
    refine ⟨?_, trivial⟩
    unfold Harmless
    rw [if_neg (by decide +kernel), hgarbage]
    simp
  change AllHarmless 64 _ (newLines (textBytes "not-json\n\x7b\"id\":") _)
  rw [hsecond]
  refine ⟨?_, trivial⟩
  unfold Harmless
  rw [if_neg (by decide +kernel)]
  constructor
  · intro hnull
    rw [hnull] at hframe
    cases hframe
  intro frame id hparse hid _
  rw [hparse, Option.all_some, Bool.and_eq_true_iff] at hframe
  cases hout : frameOutcome frame with
  | ok outcome => use outcome
  | error e =>
    rw [hout] at hframe
    cases hframe.2

/-- The keys of the requests and how often each was settled. -/
def World.settlements (w : World) : List (Decimal × ℕ) :=
  w.peer.requests.promises.map fun p => (p.key, p.settled.length)

/-- A run in which a request of an id has not been settled. -/
theorem exists_unsettled (h : w.settlements = [(id, 0)]) :
  ∃ p, w.peer.requests.promises = [p] ∧ p.key = id ∧ p.settled = []
  := by
  unfold World.settlements at h
  obtain ⟨p, rest, hp, hkey, hrest⟩ := map_eq_cons_iff.mp h
  rw [map_eq_nil_iff] at hrest
  obtain ⟨hid, hlen⟩ := Prod.mk.inj hkey
  use p
  rw [hp, hrest]
  exact ⟨rfl, hid, length_eq_zero_iff.mp hlen⟩

/-- A line `null` escapes from the handler. A response over the limit, and the end before a request,
leave a request waiting. -/
theorem not_requests_settle :
  ¬ ([.data (textBytes "null\n")].foldl (step 64) World.start).Settles 64 ∧
    ¬ ([.request "fs.diff" (some none), .data (textBytes "\x7b\"id\":1\x7d\n")].foldl (step 4)
      World.start).Settles 4 ∧
    ¬ ([.close "worker closed", .request "fs.diff" (some none)].foldl (step 64)
      World.start).Settles 64
  := by
  refine ⟨?_, ?_, ?_⟩
  · intro h
    have hescaped := congrArg List.length h.escaped
    revert hescaped
    decide +kernel
  · intro h
    have hrun : ([.request "fs.diff" (some none),
        .data (textBytes "\x7b\"id\":1\x7d\n")].foldl (step 4) World.start).settlements =
          [(.make 1 0, 0)] := by
      decide +kernel
    obtain ⟨p, hp, hkey, hset⟩ := exists_unsettled hrun
    apply h.answered (1, textBytes "\x7b\"id\":1\x7d") _ 0 Nat.zero_lt_one p _ _ hset
    · decide +kernel
    · rw [hp]
      rfl
    · rw [hkey]
      decide +kernel
  intro h
  have hrun : ([.close "worker closed", .request "fs.diff" (some none)].foldl (step 64)
      World.start).settlements = [(.make 1 0, 0)] := by
    decide +kernel
  obtain ⟨p, hp, -, hset⟩ := exists_unsettled hrun
  apply h.closed _ p _ hset
  · decide +kernel
  · rw [hp]
    apply mem_singleton_self

end NativeBridge.Ipc
