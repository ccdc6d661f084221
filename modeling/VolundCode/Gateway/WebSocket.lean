import VolundCode.Lib.Utf8
import Mathlib.Tactic

/-!
# A WebSocket connection

A connection collects the chunks that arrive, parses as many frames of them as it can and dispatches
each. A frame that can be parsed is parsed in the same way however much arrives behind it
(`parseFrame_append`), and so what the connection calls and writes does not depend on how the bytes
were cut into chunks (`consume_consume`, `receive_flatten`).
-/

namespace WebSocket

open List

/-! ### Close codes and frames -/

namespace WS_CLOSE

def normal : ℕ := 1000
def protocolError : ℕ := 1002
def unsupported : ℕ := 1003
def invalidPayload : ℕ := 1007
def tooBig : ℕ := 1009

end WS_CLOSE

/-- `Number.MAX_SAFE_INTEGER`. -/
def maxSafeInteger : ℕ :=
  2 ^ 53 - 1

structure Frame where
  fin : Bool
  opcode : ℕ
  payload : List UInt8
  deriving DecidableEq, Repr

/-- The bytes of a number, the highest first. -/
def bigEndian : ℕ → ℕ → List UInt8
  | 0, _ => []
  | k + 1, n => UInt8.ofNat (n / 256 ^ k) :: bigEndian k n

/-- The number of bytes, the highest first. -/
def readBigEndian (bs : List UInt8) : ℕ :=
  bs.foldl (fun n b => n * 256 + b.toNat) 0

/-- `encodeFrame`. -/
def encodeFrame (opcode : ℕ) (payload : List UInt8) : List UInt8 :=
  let header :=
    if payload.length < 126 then
      [0x80 ||| UInt8.ofNat opcode, UInt8.ofNat payload.length]
    else if payload.length < 65536 then
      [0x80 ||| UInt8.ofNat opcode, 126] ++ bigEndian 2 payload.length
    else [0x80 ||| UInt8.ofNat opcode, 127] ++ bigEndian 8 payload.length
  header ++ payload

/-! ### The parser -/

/-- What is read at the start of a frame: the frame, with its masking key in front of the payload,
begins at `offset`. -/
structure Header where
  fin : Bool
  opcode : ℕ
  masked : Bool
  length : ℕ
  offset : ℕ
  deriving DecidableEq, Repr

/-- The header of a frame, if all of it has arrived. -/
def header : List UInt8 → Option Header
  | b0 :: b1 :: rest =>
    let fin := b0 &&& 0x80 != 0
    let opcode := (b0 &&& 0x0f).toNat
    let masked := b1 &&& 0x80 != 0
    let length := (b1 &&& 0x7f).toNat
    if length = 126 then
      if rest.length < 2 then none else some ⟨fin, opcode, masked, readBigEndian (rest.take 2), 4⟩
    else if length = 127 then
      if rest.length < 8 then none else some ⟨fin, opcode, masked, readBigEndian (rest.take 8), 10⟩
    else some ⟨fin, opcode, masked, length, 2⟩
  | _ => none

/-- The payload with the masking key applied to it. -/
def unmask (mask payload : List UInt8) : List UInt8 :=
  payload.mapIdx fun i b => b ^^^ mask.getD (i % 4) 0

/-- What the parser answers: bytes are missing, the connection fails, or there is a frame and what
is behind it. -/
inductive Parsed where
  | wait
  | fail (code : ℕ) (reason : String)
  | frame (frame : Frame) (rest : List UInt8)
  deriving DecidableEq, Repr

/-- `parseFrame`. Only a header with 64 bits for the length can announce more than the limit. -/
def parseFrame (buffer : List UInt8) : Parsed :=
  match header buffer with
  | none => .wait
  | some h =>
    if maxSafeInteger < h.length then .fail WS_CLOSE.tooBig "frame too large"
    else if !h.masked then .fail WS_CLOSE.protocolError "client frames must be masked"
    else if buffer.length < h.offset + 4 + h.length then .wait
    else
      let mask := (buffer.drop h.offset).take 4
      let payload := (buffer.drop (h.offset + 4)).take h.length
      .frame ⟨h.fin, h.opcode, unmask mask payload⟩ (buffer.drop (h.offset + 4 + h.length))

/-! ### The connection -/

/-- What the connection does: it writes to the socket, ends or destroys it, or calls back. -/
inductive Effect where
  | write (bytes : List UInt8)
  | endSocket
  | destroy
  | onMessage (text : List Char)
  | onClose (code : ℕ) (reason : List Char)
  deriving DecidableEq, Repr

structure WsConnection where
  buffer : List UInt8
  fragments : List (List UInt8)
  fragmentBytes : ℕ
  fragmentOpcode : ℕ
  closed : Bool
  alive : Bool
  effects : List Effect
  deriving DecidableEq, Repr

/-- A connection that was just made. -/
def WsConnection.initial : WsConnection where
  buffer := []
  fragments := []
  fragmentBytes := 0
  fragmentOpcode := 0
  closed := false
  alive := true
  effects := []

namespace WsConnection

def perform (c : WsConnection) (effects : List Effect) : WsConnection :=
  { c with effects := c.effects ++ effects }

/-- `terminate`. -/
def terminate (c : WsConnection) (code : ℕ) (reason : List Char) : WsConnection :=
  if c.closed then c
  else { c with closed := true }.perform [.destroy, .onClose code reason]

/-- `fail`. -/
def fail (c : WsConnection) (code : ℕ) (reason : String) : WsConnection :=
  let payload := bigEndian 2 code ++ (Utf8.encode reason.toList).take 123
  let c := if c.closed then c else c.perform [.write (encodeFrame 8 payload)]
  c.terminate code reason.toList

/-- A text without a byte order mark at its start. -/
def withoutMark : List Char → List Char
  | '\ufeff' :: text => text
  | text => text

/-- What the decoder of `emitMessage` returns: it refuses what is not UTF-8, and leaves out a byte
order mark at the start. -/
def decodeText (payload : List UInt8) : Option (List Char) :=
  (Utf8.decodeFatal payload).map withoutMark

/-- `emitMessage`. -/
def emitMessage (c : WsConnection) (payload : List UInt8) : WsConnection :=
  match decodeText payload with
  | none => c.fail WS_CLOSE.invalidPayload "message is not valid UTF-8"
  | some text => c.perform [.onMessage text]

section Dispatch

variable (maxMessageBytes : ℕ)

/-- `dispatch`. -/
def dispatch (c : WsConnection) (frame : Frame) : WsConnection :=
  let payload := frame.payload
  if 8 ≤ frame.opcode then
    if !frame.fin || 125 < payload.length then
      c.fail WS_CLOSE.protocolError "malformed control frame"
    else if frame.opcode = 8 then
      let code := if 2 ≤ payload.length then readBigEndian (payload.take 2) else WS_CLOSE.normal
      let reason := if 2 < payload.length then Utf8.decodeLossy (payload.drop 2) else []
      (c.perform [.write (encodeFrame 8 payload), .endSocket]).terminate code reason
    else if frame.opcode = 9 then c.perform [.write (encodeFrame 10 payload)]
    else c
  else if frame.opcode = 2 then c.fail WS_CLOSE.unsupported "binary frames are not accepted"
  else if frame.opcode = 1 then
    if 0 < c.fragments.length then
      c.fail WS_CLOSE.protocolError "new message before continuation finished"
    else if maxMessageBytes < payload.length then c.fail WS_CLOSE.tooBig "message too large"
    else if frame.fin then c.emitMessage payload
    else
      { c with
        fragmentOpcode := 1
        fragments := [payload]
        fragmentBytes := payload.length }
  else if frame.opcode = 0 then
    if c.fragments.length = 0 ∨ c.fragmentOpcode ≠ 1 then
      c.fail WS_CLOSE.protocolError "unexpected continuation frame"
    else
      let c := { c with
        fragments := c.fragments ++ [payload]
        fragmentBytes := c.fragmentBytes + payload.length }
      if maxMessageBytes < c.fragmentBytes then c.fail WS_CLOSE.tooBig "message too large"
      else if frame.fin then
        { c with fragments := [], fragmentBytes := 0 }.emitMessage c.fragments.flatten
      else c
  else c.fail WS_CLOSE.protocolError ("unknown opcode " ++ toString frame.opcode)

/-- One turn of the loop of `consume`. The loop ends when nothing can be parsed or the connection
is closed: then a turn does nothing. -/
def turn (c : WsConnection) : WsConnection :=
  if c.closed then c
  else
    match parseFrame c.buffer with
    | .wait => c
    | .fail code reason => c.fail code reason
    | .frame frame rest => { c with buffer := rest, alive := true }.dispatch maxMessageBytes frame

/-- A chunk is put behind what has not been parsed. -/
def push (c : WsConnection) (chunk : List UInt8) : WsConnection :=
  if c.closed then c else { c with buffer := c.buffer ++ chunk }

/-- The loop of `consume`. Every turn takes bytes from the buffer, so that there are no more turns
than bytes. -/
def drain (c : WsConnection) : WsConnection :=
  (turn maxMessageBytes)^[c.buffer.length] c

/-- `consume`. -/
def consume (c : WsConnection) (chunk : List UInt8) : WsConnection :=
  (c.push chunk).drain maxMessageBytes

/-- The connection after chunks. -/
def receive (chunks : List (List UInt8)) : WsConnection :=
  chunks.foldl (consume maxMessageBytes) .initial

end Dispatch

end WsConnection

/-! ### Frames that have arrived and what is behind them -/

variable {buffer : List UInt8}

/-- A header is read before anything that is behind it. -/
theorem header_append {h : Header} (hh : header buffer = some h) (ext : List UInt8) :
  header (buffer ++ ext) = some h
  := by
  match buffer, hh with
  | b0 :: b1 :: rest, hh =>
    rw [header] at hh
    rw [cons_append, cons_append, header]
    split_ifs at hh ⊢ with h₁ h₂ h₃ h₄ h₅ h₆
    all_goals
      first
      | (rw [length_append] at *; omega)
      | (rw [take_append_of_le_length (by omega)]; exact hh)
      | exact hh

/-- The bytes before the payload have arrived. -/
theorem offset_le_of_header {h : Header} (hh : header buffer = some h) :
  2 ≤ h.offset ∧ h.offset ≤ 10 ∧ h.offset ≤ buffer.length
  := by
  match buffer, hh with
  | b0 :: b1 :: rest, hh =>
    rw [header] at hh
    split_ifs at hh
    all_goals
      cases hh
      simp only [length_cons]
      omega

/-- The header of a frame that is parsed. -/
theorem parseFrame_eq_frame_iff {rest : List UInt8} {frame : Frame} :
  parseFrame buffer = .frame frame rest ↔ ∃ h, header buffer = some h ∧
    h.length ≤ maxSafeInteger ∧ h.masked ∧ h.offset + 4 + h.length ≤ buffer.length ∧
    frame = ⟨h.fin, h.opcode,
      unmask ((buffer.drop h.offset).take 4) ((buffer.drop (h.offset + 4)).take h.length)⟩ ∧
    rest = buffer.drop (h.offset + 4 + h.length)
  := by
  rw [parseFrame]
  cases header buffer with
  | none => simp
  | some h =>
  simp only [Option.some.injEq, exists_eq_left']
  split_ifs with h₁ h₂ h₃
  · simp [h₁.not_ge]
  · simp only [Bool.not_eq_true', reduceCtorEq, false_iff] at h₂ ⊢
    simp [h₂]
  · simp [h₃.not_ge]
  simp only [Bool.not_eq_true', Bool.not_eq_false] at h₂
  simp only [Parsed.frame.injEq, le_of_not_gt h₁, h₂, le_of_not_gt h₃, true_and]
  constructor
  all_goals
    rintro ⟨rfl, rfl⟩
    exact ⟨rfl, rfl⟩

/-- A frame is parsed in the same way however much is behind it. -/
theorem parseFrame_append {rest : List UInt8} {frame : Frame}
    (hp : parseFrame buffer = .frame frame rest) (ext : List UInt8) :
  parseFrame (buffer ++ ext) = .frame frame (rest ++ ext)
  := by
  obtain ⟨h, hh, hsafe, hmasked, hlen, rfl, rfl⟩ := parseFrame_eq_frame_iff.mp hp
  rw [parseFrame_eq_frame_iff]
  use h, header_append hh ext, hsafe, hmasked
  rw [length_append]
  use hlen.trans (Nat.le_add_right _ _)
  rw [drop_append_of_le_length (by omega), drop_append_of_le_length (by omega),
    drop_append_of_le_length (by omega),
    take_append_of_le_length (by rw [length_drop]; omega),
    take_append_of_le_length (by rw [length_drop]; omega)]
  exact ⟨rfl, rfl⟩

/-- The connection fails in the same way however much is behind what has arrived. -/
theorem parseFrame_fail_append {code : ℕ} {reason : String}
    (hp : parseFrame buffer = .fail code reason) (ext : List UInt8) :
  parseFrame (buffer ++ ext) = .fail code reason
  := by
  rw [parseFrame] at hp ⊢
  cases hh : header buffer with
  | none => simp [hh] at hp
  | some h =>
  rw [header_append hh ext]
  rw [hh] at hp
  simp only at hp ⊢
  split_ifs at hp ⊢ with h₁ h₂ h₃
  · exact hp
  · exact hp

/-- What is behind a frame is shorter than what has arrived. -/
theorem length_lt_of_parseFrame {rest : List UInt8} {frame : Frame}
    (hp : parseFrame buffer = .frame frame rest) :
  rest.length < buffer.length
  := by
  obtain ⟨h, hh, -, -, hlen, -, rfl⟩ := parseFrame_eq_frame_iff.mp hp
  rw [length_drop]
  omega

namespace WsConnection

/-! ### What does not look at the buffer -/

section Buffer

variable (c : WsConnection) (buffer : List UInt8)

/-- The connection with other bytes that have not been parsed. -/
def withBuffer : WsConnection :=
  { c with buffer := buffer }

@[simp] theorem withBuffer_closed :
  (c.withBuffer buffer).closed = c.closed
  := rfl

@[simp] theorem withBuffer_effects :
  (c.withBuffer buffer).effects = c.effects
  := rfl

theorem terminate_withBuffer (code : ℕ) (reason : List Char) :
  (c.withBuffer buffer).terminate code reason = (c.terminate code reason).withBuffer buffer
  := by
  rw [terminate, terminate, withBuffer_closed]
  split_ifs
  · rfl
  · rfl

theorem fail_withBuffer (code : ℕ) (reason : String) :
  (c.withBuffer buffer).fail code reason = (c.fail code reason).withBuffer buffer
  := by
  by_cases hc : c.closed
  · have hb : (c.withBuffer buffer).closed := hc
    simp only [fail]
    rw [if_pos hc, if_pos hb, terminate_withBuffer]
  have hb : ¬ (c.withBuffer buffer).closed := hc
  simp only [fail]
  rw [if_neg hc, if_neg hb, ← terminate_withBuffer]
  rfl

theorem emitMessage_withBuffer (payload : List UInt8) :
  (c.withBuffer buffer).emitMessage payload = (c.emitMessage payload).withBuffer buffer
  := by
  rw [emitMessage, emitMessage]
  cases decodeText payload with
  | none => exact fail_withBuffer c buffer _ _
  | some text => rfl

/-- A frame is dispatched without a look at the buffer. -/
theorem dispatch_withBuffer (maxMessageBytes : ℕ) (frame : Frame) :
  (c.withBuffer buffer).dispatch maxMessageBytes frame =
    (c.dispatch maxMessageBytes frame).withBuffer buffer
  := by
  let collected : WsConnection := { c with
    fragments := c.fragments ++ [frame.payload]
    fragmentBytes := c.fragmentBytes + frame.payload.length }
  let finished : WsConnection := { collected with fragments := [], fragmentBytes := 0 }
  have hopcode : (c.withBuffer buffer).fragmentOpcode = c.fragmentOpcode := rfl
  have hbytes : (c.withBuffer buffer).fragmentBytes = c.fragmentBytes := rfl
  have hfrags : (c.withBuffer buffer).fragments = c.fragments := rfl
  simp only [dispatch, hopcode, hbytes, hfrags]
  split_ifs
  all_goals
    first
    | rfl
    | exact fail_withBuffer c buffer _ _
    | exact fail_withBuffer collected buffer _ _
    | exact terminate_withBuffer (c.perform _) buffer _ _
    | exact emitMessage_withBuffer c buffer _
    | exact emitMessage_withBuffer finished buffer _

end Buffer

/-- A connection fails only once. -/
theorem fail_closed (c : WsConnection) (code : ℕ) (reason : String) :
  (c.fail code reason).closed
  := by
  by_cases hc : c.closed
  · simp [fail, terminate, hc]
  · simp [fail, terminate, perform, hc]

/-! ### The loop -/

section Loop

variable {maxMessageBytes : ℕ}

variable {c : WsConnection}

theorem turn_closed (h : c.closed) :
  c.turn maxMessageBytes = c
  := by
  rw [turn, if_pos h]

/-- The bytes of a frame are taken from the buffer. -/
theorem turn_frame {frame : Frame} {rest : List UInt8} (h : c.closed = false)
    (hp : parseFrame c.buffer = .frame frame rest) :
  c.turn maxMessageBytes = ({ c with alive := true }.dispatch maxMessageBytes frame).withBuffer rest
  := by
  rw [turn, if_neg (by simp [h]), hp, ← dispatch_withBuffer]
  rfl

/-- A turn does nothing, or it closes the connection, or it takes bytes from the buffer. -/
theorem turn_progress (maxMessageBytes : ℕ) (c : WsConnection) :
  c.turn maxMessageBytes = c ∨ (c.turn maxMessageBytes).closed ∨
    (c.turn maxMessageBytes).buffer.length < c.buffer.length
  := by
  cases hc : c.closed with
  | true => exact Or.inl (turn_closed hc)
  | false =>
  cases hp : parseFrame c.buffer with
  | wait => left; simp [turn, hc, hp]
  | fail code reason =>
    right
    left
    simp only [turn, hc, hp]
    exact fail_closed c code reason
  | frame frame rest =>
  right
  right
  rw [turn_frame hc hp]
  exact length_lt_of_parseFrame hp

/-- No turn is left after as many turns as there are bytes. -/
theorem turn_iterate {n : ℕ} (h : c.buffer.length ≤ n) :
  (turn maxMessageBytes)^[n] c = c.drain maxMessageBytes ∧
    (c.drain maxMessageBytes).turn maxMessageBytes = c.drain maxMessageBytes
  := by
  have hfix {c : WsConnection} (hc : c.turn maxMessageBytes = c) (n : ℕ) :
      (turn maxMessageBytes)^[n] c = c := Function.iterate_fixed hc n
  have hmany : ∀ (m k : ℕ) (c : WsConnection), c.buffer.length ≤ m →
      (turn maxMessageBytes)^[m + k] c = (turn maxMessageBytes)^[m] c ∧
        ((turn maxMessageBytes)^[m] c).turn maxMessageBytes = (turn maxMessageBytes)^[m] c := by
    intro m
    induction m with
    | zero =>
      intro k c hm
      have hc : c.turn maxMessageBytes = c := by
        have hnil : c.buffer = [] := eq_nil_of_length_eq_zero (Nat.le_zero.mp hm)
        rw [turn, hnil]
        split_ifs
        · rfl
        · rfl
      rw [hfix hc, hfix hc]
      exact ⟨rfl, hc⟩
    | succ m ih =>
    intro k c hm
    rw [Nat.succ_add_eq_add_succ, ← Nat.succ_eq_add_one, Function.iterate_succ_apply,
      Nat.add_succ, Function.iterate_succ_apply]
    obtain hc | hc | hc := turn_progress maxMessageBytes c
    · rw [hc, hfix hc, hfix hc]
      exact ⟨rfl, hc⟩
    · rw [hfix (turn_closed hc), hfix (turn_closed hc)]
      exact ⟨rfl, turn_closed hc⟩
    · exact ih k _ (by omega)
  obtain ⟨k, rfl⟩ := Nat.exists_eq_add_of_le h
  rw [drain]
  exact hmany _ k c le_rfl

/-- A connection at which the loop ends is left as it is. -/
theorem drain_eq_self (h : c.turn maxMessageBytes = c) :
  c.drain maxMessageBytes = c
  := Function.iterate_fixed h _

theorem turn_drain (maxMessageBytes : ℕ) (c : WsConnection) :
  (c.drain maxMessageBytes).turn maxMessageBytes = c.drain maxMessageBytes
  := (turn_iterate le_rfl).2

/-- No turn makes the buffer longer. -/
theorem length_turn_le (maxMessageBytes : ℕ) (c : WsConnection) :
  (c.turn maxMessageBytes).buffer.length ≤ c.buffer.length
  := by
  cases hc : c.closed with
  | true => rw [turn_closed hc]
  | false =>
  cases hp : parseFrame c.buffer with
  | wait => simp [turn, hc, hp]
  | fail code reason =>
    have hbuf := congrArg buffer (fail_withBuffer c c.buffer code reason)
    simp only [turn, hc, hp]
    exact (congrArg List.length hbuf).le
  | frame frame rest =>
    rw [turn_frame hc hp]
    exact (length_lt_of_parseFrame hp).le

/-- The loop goes on after its first turn. -/
theorem drain_turn (maxMessageBytes : ℕ) (c : WsConnection) :
  (c.turn maxMessageBytes).drain maxMessageBytes = c.drain maxMessageBytes
  := by
  rw [← (turn_iterate (length_turn_le maxMessageBytes c)).1, ← Function.iterate_succ_apply]
  exact (turn_iterate (Nat.le_succ _)).1

end Loop

/-! ### Cutting the bytes into chunks -/

/-- Connections that did the same and go on in the same way: a connection that is closed does
nothing with its buffer. -/
structure Alike (c d : WsConnection) : Prop where
  effects : c.effects = d.effects
  closed : c.closed = d.closed
  eq_of_open : c.closed = false → c = d

theorem Alike.refl (c : WsConnection) :
  Alike c c
  := ⟨rfl, rfl, fun _ => rfl⟩

theorem Alike.symm {c d : WsConnection} (h : Alike c d) :
  Alike d c
  := ⟨h.effects.symm, h.closed.symm, fun hd => (h.eq_of_open (h.closed.trans hd)).symm⟩

theorem Alike.trans {c d e : WsConnection} (h : Alike c d) (h' : Alike d e) :
  Alike c e
  := ⟨h.effects.trans h'.effects, h.closed.trans h'.closed, fun hc =>
    (h.eq_of_open hc).trans (h'.eq_of_open (h.closed.symm.trans hc))⟩

section Chunks

variable {maxMessageBytes : ℕ}

variable {c : WsConnection}

theorem alike_drain {d : WsConnection} (h : Alike c d) :
  Alike (c.drain maxMessageBytes) (d.drain maxMessageBytes)
  := by
  cases hc : c.closed with
  | true =>
    have hd : d.closed := h.closed.symm.trans hc
    rw [drain_eq_self (turn_closed hc), drain_eq_self (turn_closed hd)]
    exact h
  | false =>
    rw [h.eq_of_open hc]
    exact Alike.refl _

theorem push_open (h : c.closed = false) (chunk : List UInt8) :
  c.push chunk = c.withBuffer (c.buffer ++ chunk)
  := by
  rw [push, if_neg (by simp [h])]
  rfl

theorem push_closed (h : c.closed) (chunk : List UInt8) :
  c.push chunk = c
  := by
  rw [push, if_pos h]

theorem push_push (c : WsConnection) (a b : List UInt8) :
  (c.push a).push b = c.push (a ++ b)
  := by
  cases hc : c.closed with
  | true => rw [push_closed hc, push_closed hc, push_closed hc]
  | false =>
    rw [push_open hc, push_open hc, push_open (by exact hc)]
    simp [withBuffer]

/-- A turn that does something does it as well when more has arrived. -/
theorem alike_turn_push (h : c.turn maxMessageBytes ≠ c) (chunk : List UInt8) :
  Alike ((c.push chunk).turn maxMessageBytes) ((c.turn maxMessageBytes).push chunk)
  := by
  cases hc : c.closed with
  | true => exact absurd (turn_closed hc) h
  | false =>
  rw [push_open hc]
  cases hp : parseFrame c.buffer with
  | wait => exact absurd (by simp [turn, hc, hp]) h
  | fail code reason =>
    have hturn : c.turn maxMessageBytes = c.fail code reason := by simp [turn, hc, hp]
    have hturn' : (c.withBuffer (c.buffer ++ chunk)).turn maxMessageBytes =
        (c.fail code reason).withBuffer (c.buffer ++ chunk) := by
      rw [turn, if_neg (by simp [hc]), ← fail_withBuffer]
      simp only [withBuffer, parseFrame_fail_append hp]
    rw [hturn, hturn', push_closed (fail_closed c code reason)]
    use rfl, rfl
    intro hopen
    cases hopen.symm.trans (fail_closed c code reason)
  | frame frame rest =>
  have hturn' : (c.withBuffer (c.buffer ++ chunk)).turn maxMessageBytes =
      ({ c with alive := true }.dispatch maxMessageBytes frame).withBuffer
        (rest ++ chunk) := by
    rw [turn_frame (by exact hc) (parseFrame_append hp chunk), ← dispatch_withBuffer,
      ← dispatch_withBuffer]
    rfl
  rw [turn_frame hc hp, hturn']
  generalize { c with alive := true }.dispatch maxMessageBytes frame = d
  cases hd : d.closed with
  | true =>
    rw [push_closed (by exact hd)]
    use rfl, rfl
    intro hopen
    cases hopen.symm.trans hd
  | false =>
    rw [push_open (by exact hd)]
    exact Alike.refl _

/-- The loop may run before the rest of the bytes arrives. -/
theorem alike_drain_push (c : WsConnection) (chunk : List UInt8) :
  Alike ((c.push chunk).drain maxMessageBytes)
    (((c.drain maxMessageBytes).push chunk).drain maxMessageBytes)
  := by
  have hfixed {c : WsConnection} (h : c.turn maxMessageBytes = c) :
      Alike ((c.push chunk).drain maxMessageBytes)
        (((c.drain maxMessageBytes).push chunk).drain maxMessageBytes) := by
    rw [drain_eq_self h]
    exact Alike.refl _
  induction hn : c.buffer.length using Nat.strong_induction_on generalizing c with
  | h n ih =>
  by_cases h : c.turn maxMessageBytes = c
  · exact hfixed h
  rw [← drain_turn maxMessageBytes (c.push chunk), ← drain_turn maxMessageBytes c]
  apply Alike.trans (alike_drain (alike_turn_push h chunk))
  obtain hc | hc | hc := turn_progress maxMessageBytes c
  · exact absurd hc h
  · exact hfixed (turn_closed hc)
  · exact ih _ (hn ▸ hc) _ rfl

/-- Two chunks are consumed like one. -/
theorem consume_consume (c : WsConnection) (a b : List UInt8) :
  Alike (c.consume maxMessageBytes (a ++ b))
    ((c.consume maxMessageBytes a).consume maxMessageBytes b)
  := by
  rw [consume, consume, consume, ← push_push]
  exact alike_drain_push (c.push a) b

/-- Chunks are consumed like the bytes that they make up. -/
theorem consume_chunks (h : c.turn maxMessageBytes = c) (chunks : List (List UInt8)) :
  Alike (chunks.foldl (consume maxMessageBytes) c) (c.consume maxMessageBytes chunks.flatten)
  := by
  induction chunks generalizing c with
  | nil =>
    have hpush : c.push [] = c := by
      rw [push, append_nil]
      split_ifs
      · rfl
      · rfl
    rw [flatten_nil, consume, hpush, drain_eq_self h]
    exact Alike.refl c
  | cons a chunks ih =>
    rw [foldl_cons, flatten_cons]
    apply Alike.trans (ih (turn_drain maxMessageBytes (c.push a)))
    exact (consume_consume c a chunks.flatten).symm

theorem receive_alike (chunks : List (List UInt8)) :
  Alike (receive maxMessageBytes chunks)
    (WsConnection.initial.consume maxMessageBytes chunks.flatten)
  := consume_chunks rfl chunks

/-- What the connection does depends on the bytes, and not on how they were cut into chunks. -/
theorem receive_flatten {chunks chunks' : List (List UInt8)}
    (h : chunks.flatten = chunks'.flatten) :
  (receive maxMessageBytes chunks).effects = (receive maxMessageBytes chunks').effects
  := by
  have hc := (@receive_alike maxMessageBytes chunks).effects
  rw [h] at hc
  exact hc.trans (receive_alike chunks').effects.symm

end Chunks

end WsConnection

end WebSocket
