import VolundCode.Gateway.WebSocket

/-!
# Messages over a WebSocket

A client cuts a text into fragments, puts pings and pongs between them, and writes masked frames,
with the length in any of the three forms. However the bytes are cut into chunks, the connection
answers every ping, calls back with every text and stays open, but it leaves out a byte order mark
at the start of a text (`reassembles_iff`).
-/

namespace WebSocket

open List UInt8

/-! ### What a client writes -/

/-- The forms of the length of a payload: in the second byte, in two more bytes, or in eight more. -/
inductive LengthForm where
  | short
  | medium
  | long
  deriving DecidableEq, Repr

/-- A length can be written in a form. No buffer is longer than a safe integer. -/
def LengthForm.Fits : LengthForm → ℕ → Prop
  | short, n => n < 126
  | medium, n => n < 65536
  | long, n => n ≤ maxSafeInteger

instance LengthForm.decidableFits : ∀ form n, Decidable (LengthForm.Fits form n)
  | short, n => inferInstanceAs (Decidable (n < 126))
  | medium, n => inferInstanceAs (Decidable (n < 65536))
  | long, n => inferInstanceAs (Decidable (n ≤ maxSafeInteger))

/-- The length of a masked payload. -/
def LengthForm.bytes : LengthForm → ℕ → List UInt8
  | short, n => [0x80 ||| UInt8.ofNat n]
  | medium, n => 0xfe :: bigEndian 2 n
  | long, n => 0xff :: bigEndian 8 n

/-- A frame with a masking key and a form of the length. -/
structure ClientFrame where
  frame : Frame
  mask : List UInt8
  form : LengthForm
  opcode_lt : frame.opcode < 16
  mask_length : mask.length = 4
  fits : form.Fits frame.payload.length

def ClientFrame.bytes (f : ClientFrame) : List UInt8 :=
  ((if f.frame.fin then 0x80 else 0) ||| ofNat f.frame.opcode) ::
    (f.form.bytes f.frame.payload.length ++ (f.mask ++ unmask f.mask f.frame.payload))

/-- What a client sends: a text, or a ping with its payload. -/
inductive Sent where
  | message (text : List Char)
  | ping (payload : List UInt8)

/-- Frames in which a client sends texts and pings, with pongs between, if it has already sent the
bytes `prior` of a text that is not complete. -/
inductive Fragmented : Option (List UInt8) → List Frame → List Sent → Prop where
  | done : Fragmented none [] []
  | ping {prior : Option (List UInt8)} {frames : List Frame} {sent : List Sent}
      {payload : List UInt8} (hlen : payload.length ≤ 125)
      (h : Fragmented prior frames sent) :
      Fragmented prior (⟨true, 9, payload⟩ :: frames) (.ping payload :: sent)
  | pong {prior : Option (List UInt8)} {frames : List Frame} {sent : List Sent}
      {payload : List UInt8} (hlen : payload.length ≤ 125)
      (h : Fragmented prior frames sent) :
      Fragmented prior (⟨true, 10, payload⟩ :: frames) sent
  | whole {frames : List Frame} {sent : List Sent} (text : List Char)
      (h : Fragmented none frames sent) :
      Fragmented none (⟨true, 1, Utf8.encode text⟩ :: frames) (.message text :: sent)
  | first {frames : List Frame} {sent : List Sent} {payload : List UInt8}
      (h : Fragmented (some payload) frames sent) :
      Fragmented none (⟨false, 1, payload⟩ :: frames) sent
  | next {prior : List UInt8} {frames : List Frame} {sent : List Sent} {payload : List UInt8}
      (h : Fragmented (some (prior ++ payload)) frames sent) :
      Fragmented (some prior) (⟨false, 0, payload⟩ :: frames) sent
  | last {prior : List UInt8} {frames : List Frame} {sent : List Sent} {payload : List UInt8}
      (text : List Char) (htext : prior ++ payload = Utf8.encode text)
      (h : Fragmented none frames sent) :
      Fragmented (some prior) (⟨true, 0, payload⟩ :: frames) (.message text :: sent)

/-- What is claimed to be done at what a client sends. -/
def Sent.effect : Sent → Effect
  | .message text => .onMessage text
  | .ping payload => .write (encodeFrame 10 payload)

/-! ### A frame is parsed as it was written -/

theorem readBigEndian_bigEndian (k n : ℕ) (h : n < 256 ^ k) :
  readBigEndian (bigEndian k n) = n
  := by
  have hfold : ∀ (k acc n : ℕ), (bigEndian k n).foldl (fun n b => n * 256 + b.toNat) acc =
      acc * 256 ^ k + n % 256 ^ k := by
    intro k
    induction k with
    | zero => intro acc n; simp [bigEndian, Nat.mod_one]
    | succ k ih =>
    intro acc n
    have hmod : n % (256 ^ k * 256) = n % 256 ^ k + 256 ^ k * (n / 256 ^ k % 256) := Nat.mod_mul
    have hbyte : (ofNat (n / 256 ^ k)).toNat = n / 256 ^ k % 256 := toNat_ofNat'
    rw [bigEndian, foldl_cons, ih, hbyte, pow_succ 256 k, hmod]
    ring
  rw [readBigEndian, hfold, Nat.mod_eq_of_lt h]
  omega

@[simp] theorem length_bigEndian (k n : ℕ) :
  (bigEndian k n).length = k
  := by
  induction k with
  | zero => rfl
  | succ k ih => rw [bigEndian, length_cons, ih]

@[simp] theorem length_unmask (mask payload : List UInt8) :
  (unmask mask payload).length = payload.length
  := length_mapIdx

/-- Masking twice is doing nothing. -/
theorem unmask_unmask (mask payload : List UInt8) :
  unmask mask (unmask mask payload) = payload
  := by
  apply ext_getElem
  · rw [length_unmask, length_unmask]
  · intro i h₁ h₂
    simp only [unmask, getElem_mapIdx, UInt8.xor_assoc, UInt8.xor_self, UInt8.xor_zero]

/-- The bits of the first byte. -/
theorem firstByte (fin : Bool) (opcode : Fin 16) :
  ((((if fin then 0x80 else 0) ||| ofNat opcode) &&& 0x80 : UInt8) != 0) = fin ∧
    (((if fin then 0x80 else 0) ||| ofNat opcode) &&& 0x0f : UInt8).toNat = opcode
  := by
  revert fin opcode
  decide

/-- The bits of the second byte. -/
theorem secondByte (n : Fin 128) :
  (((0x80 ||| ofNat n) &&& 0x80 : UInt8) != 0) = true ∧
    ((0x80 ||| ofNat n) &&& 0x7f : UInt8).toNat = n
  := by
  revert n
  decide

/-- The header of a frame that a client writes. -/
theorem header_bytes (f : ClientFrame) (ext : List UInt8) :
  header (f.bytes ++ ext) = some ⟨f.frame.fin, f.frame.opcode, true, f.frame.payload.length,
    1 + (f.form.bytes f.frame.payload.length).length⟩
  := by
  obtain ⟨hfin, hopcode⟩ := firstByte f.frame.fin ⟨f.frame.opcode, f.opcode_lt⟩
  simp only at hfin hopcode
  have hfits := f.fits
  rw [ClientFrame.bytes]
  cases hform : f.form with
  | short =>
    rw [hform, LengthForm.Fits] at hfits
    obtain ⟨hmasked, hn⟩ := secondByte ⟨f.frame.payload.length, by omega⟩
    simp only at hmasked hn
    simp only [LengthForm.bytes, cons_append, nil_append, header, hfin, hopcode,
      hmasked, hn, length_singleton]
    rw [if_neg (by omega), if_neg (by omega)]
  | medium =>
    rw [hform, LengthForm.Fits] at hfits
    simp only [LengthForm.bytes, cons_append, append_assoc, header, hfin, hopcode]
    rw [if_pos (by decide), if_neg (by rw [length_append, length_bigEndian]; omega),
      take_append_of_le_length (by simp), take_of_length_le (by simp),
      readBigEndian_bigEndian 2 _ (by omega), length_cons, length_bigEndian]
    rfl
  | long =>
  rw [hform, LengthForm.Fits, maxSafeInteger] at hfits
  simp only [LengthForm.bytes, cons_append, append_assoc, header, hfin, hopcode]
  rw [if_neg (by decide), if_pos (by decide),
    if_neg (by rw [length_append, length_bigEndian]; omega),
    take_append_of_le_length (by simp), take_of_length_le (by simp),
    readBigEndian_bigEndian 8 _ (by omega), length_cons, length_bigEndian]
  rfl

/-- A frame that a client writes is parsed. -/
theorem parseFrame_bytes (f : ClientFrame) (ext : List UInt8) :
  parseFrame (f.bytes ++ ext) = .frame f.frame ext
  := by
  rw [parseFrame_eq_frame_iff]
  refine ⟨_, header_bytes f ext, ?_⟩
  have hsafe : f.frame.payload.length ≤ maxSafeInteger := by
    have hfits := f.fits
    cases hform : f.form with
    | short | medium | long =>
      rw [hform] at hfits
      simp only [LengthForm.Fits, maxSafeInteger] at hfits ⊢
      omega
  generalize hstart : ((if f.frame.fin then 0x80 else 0) ||| ofNat f.frame.opcode) ::
    f.form.bytes f.frame.payload.length = start
  have hoffset : start.length = 1 + (f.form.bytes f.frame.payload.length).length := by
    rw [← hstart, length_cons, Nat.add_comm]
  have hbytes : f.bytes ++ ext = start ++ (f.mask ++ (unmask f.mask f.frame.payload ++ ext)) := by
    rw [← hstart, ClientFrame.bytes]
    simp only [cons_append, append_assoc]
  have hmask : (start ++ f.mask).length = start.length + 4 := by
    rw [length_append, f.mask_length]
  have hload : ((start ++ f.mask) ++ unmask f.mask f.frame.payload).length =
      start.length + 4 + f.frame.payload.length := by
    rw [length_append, hmask, length_unmask]
  rw [hbytes, ← hoffset]
  use hsafe, rfl
  constructor
  · rw [← append_assoc, ← append_assoc, length_append, hload]
    exact Nat.le_add_right _ _
  constructor
  · dsimp only
    rw [drop_left, take_left' f.mask_length, ← append_assoc start,
      drop_left' hmask, take_left' (length_unmask _ _), unmask_unmask]
  · dsimp only
    rw [← append_assoc start, ← append_assoc, drop_left' hload]

namespace WsConnection

/-! ### Frames that a client writes are dispatched -/

/-- What is really done at what a client sends. -/
def delivered : Sent → Effect
  | .message text => .onMessage (withoutMark text)
  | .ping payload => .write (encodeFrame 10 payload)

theorem decodeText_encode (text : List Char) :
  decodeText (Utf8.encode text) = some (withoutMark text)
  := by
  rw [decodeText, Utf8.decodeFatal_encode]
  rfl

theorem withoutMark_eq_self_iff (text : List Char) :
  withoutMark text = text ↔ text.head? ≠ some '\ufeff'
  := by
  rw [withoutMark.eq_def]
  split
  · rename_i rest
    constructor
    · intro h
      exact absurd (congrArg List.length h) (by simp)
    · intro h
      exact absurd rfl h
  rename_i hne
  simp only [ne_eq, true_iff]
  intro h
  obtain ⟨rest, rfl⟩ := List.head?_eq_some_iff.mp h
  exact hne rest rfl

/-- What the connection has collected of a text. -/
def Collecting (c : WsConnection) : Option (List UInt8) → Prop
  | none => c.fragments = []
  | some prior => c.fragments ≠ [] ∧ c.fragments.flatten = prior ∧
      c.fragmentBytes = prior.length ∧ c.fragmentOpcode = 1

/-- What has been sent of a text that is not complete is not longer than the text. -/
theorem length_prior_le {maxMessageBytes : ℕ} {prior : Option (List UInt8)} {frames : List Frame}
    {sent : List Sent} (h : Fragmented prior frames sent)
    (hmax : ∀ text, .message text ∈ sent → (Utf8.encode text).length ≤ maxMessageBytes) :
  ∀ bs ∈ prior, bs.length ≤ maxMessageBytes
  := by
  induction h with
  | done => simp
  | ping hlen h ih => exact ih fun text ht => hmax text (mem_cons_of_mem _ ht)
  | pong hlen h ih => exact ih hmax
  | whole text h ih | first h ih => simp
  | next h ih =>
    rintro bs ⟨⟩
    have hle := ih hmax _ rfl
    rw [length_append] at hle
    omega
  | last text htext h ih =>
  rintro bs ⟨⟩
  have hle := hmax text mem_cons_self
  rw [← htext, length_append] at hle
  omega

section Wire

variable {maxMessageBytes : ℕ}

/-- A frame at the start of the buffer is dispatched. -/
theorem turn_wire {c : WsConnection} (hc : c.closed = false) (f : ClientFrame) {rest : List UInt8}
    (hbuf : c.buffer = f.bytes ++ rest) :
  c.turn maxMessageBytes =
    ({ c with alive := true }.dispatch maxMessageBytes f.frame).withBuffer rest
  := by
  apply turn_frame hc
  rw [hbuf, parseFrame_bytes]

/-- A text that is complete is called back with. -/
theorem emitMessage_encode (c : WsConnection) (text : List Char) :
  c.emitMessage (Utf8.encode text) = c.perform [.onMessage (withoutMark text)]
  := by
  rw [emitMessage, decodeText_encode]

/-- The connection does what it does at each of the frames that a client writes, and stays open. -/
theorem drain_fragmented {prior : Option (List UInt8)} {frames : List Frame} {sent : List Sent}
    (h : Fragmented prior frames sent)
    (hmax : ∀ text, .message text ∈ sent → (Utf8.encode text).length ≤ maxMessageBytes)
    (c : WsConnection) (wire : List ClientFrame) (hwire : wire.map (·.frame) = frames)
    (hc : c.closed = false) (hprior : c.Collecting prior)
    (hbuf : c.buffer = wire.flatMap ClientFrame.bytes) :
  (c.drain maxMessageBytes).closed = false ∧
    (c.drain maxMessageBytes).effects = c.effects ++ sent.map delivered
  := by
  -- Once a frame is dispatched, the rest is what the induction is about.
  have hcons {frame : Frame} {frames : List Frame} {wire : List ClientFrame} {c : WsConnection}
      (hwire : wire.map (·.frame) = frame :: frames) (hc : c.closed = false)
      (hbuf : c.buffer = wire.flatMap ClientFrame.bytes) :
      ∃ wire' : List ClientFrame, wire'.map (·.frame) = frames ∧
        c.drain maxMessageBytes = (({ c with alive := true }.dispatch maxMessageBytes
          frame).withBuffer (wire'.flatMap ClientFrame.bytes)).drain maxMessageBytes := by
    obtain ⟨f, wire', rfl, rfl, hrest⟩ := map_eq_cons_iff.mp hwire
    have hrest' : c.buffer = f.bytes ++ wire'.flatMap ClientFrame.bytes := hbuf
    use wire', hrest
    rw [← drain_turn, turn_wire hc f hrest']
  induction h generalizing c wire with
  | done =>
    obtain rfl := map_eq_nil_iff.mp hwire
    have hturn : c.turn maxMessageBytes = c := by
      rw [turn, if_neg (by simp [hc]), hbuf]
      rfl
    rw [drain_eq_self hturn]
    exact ⟨hc, (append_nil _).symm⟩
  | @ping prior frames sent payload hlen h ih =>
    obtain ⟨wire', hwire', hdrain⟩ := hcons hwire hc hbuf
    have hd : { c with alive := true }.dispatch maxMessageBytes ⟨true, 9, payload⟩ =
        { c with alive := true }.perform [.write (encodeFrame 10 payload)] := by
      simp [dispatch, hlen]
    rw [hdrain, hd]
    obtain ⟨hshut, heffs⟩ := ih (fun text ht => hmax text (mem_cons_of_mem _ ht))
      (({ c with alive := true }.perform [.write (encodeFrame 10 payload)]).withBuffer
        (wire'.flatMap ClientFrame.bytes)) wire' hwire' hc hprior rfl
    use hshut
    rw [heffs]
    simp [perform, delivered]
  | @pong prior frames sent payload hlen h ih =>
    obtain ⟨wire', hwire', hdrain⟩ := hcons hwire hc hbuf
    have hd : { c with alive := true }.dispatch maxMessageBytes ⟨true, 10, payload⟩ =
        { c with alive := true } := by
      simp [dispatch, hlen]
    rw [hdrain, hd]
    exact ih hmax ({ c with alive := true }.withBuffer (wire'.flatMap ClientFrame.bytes)) wire' hwire'
      hc hprior rfl
  | @whole frames sent text h ih =>
    obtain ⟨wire', hwire', hdrain⟩ := hcons hwire hc hbuf
    have hle := hmax text mem_cons_self
    have hfrags : c.fragments = [] := hprior
    have hd : { c with alive := true }.dispatch maxMessageBytes ⟨true, 1, Utf8.encode text⟩ =
        { c with alive := true }.perform [.onMessage (withoutMark text)] := by
      rw [← emitMessage_encode]
      simp [dispatch, hfrags, hle]
    rw [hdrain, hd]
    obtain ⟨hshut, heffs⟩ := ih (fun text ht => hmax text (mem_cons_of_mem _ ht))
      (({ c with alive := true }.perform [.onMessage (withoutMark text)]).withBuffer
        (wire'.flatMap ClientFrame.bytes)) wire' hwire' hc hprior rfl
    use hshut
    rw [heffs]
    simp [perform, delivered]
  | @first frames sent payload h ih =>
    obtain ⟨wire', hwire', hdrain⟩ := hcons hwire hc hbuf
    have hle := length_prior_le h hmax payload rfl
    have hfrags : c.fragments = [] := hprior
    have hd : { c with alive := true }.dispatch maxMessageBytes ⟨false, 1, payload⟩ =
        { c with
          alive := true
          fragmentOpcode := 1
          fragments := [payload]
          fragmentBytes := payload.length } := by
      simp [dispatch, hfrags, hle]
    rw [hdrain, hd]
    exact ih hmax _ wire' hwire' hc ⟨by simp [withBuffer], by simp [withBuffer], rfl, rfl⟩ rfl
  | @next prior frames sent payload h ih =>
    obtain ⟨wire', hwire', hdrain⟩ := hcons hwire hc hbuf
    obtain ⟨hne, hflat, hbytes, hopcode⟩ := hprior
    have hle := length_prior_le h hmax (prior ++ payload) rfl
    rw [length_append] at hle
    have hd : { c with alive := true }.dispatch maxMessageBytes ⟨false, 0, payload⟩ =
        { c with
          alive := true
          fragments := c.fragments ++ [payload]
          fragmentBytes := c.fragmentBytes + payload.length } := by
      simp [dispatch, hne, hopcode, hbytes, hle]
    rw [hdrain, hd]
    exact ih hmax _ wire' hwire' hc ⟨by simp [withBuffer], by simp [withBuffer, hflat],
      by simp [withBuffer, hbytes], hopcode⟩ rfl
  | @last prior frames sent payload text htext h ih =>
  obtain ⟨wire', hwire', hdrain⟩ := hcons hwire hc hbuf
  obtain ⟨hne, hflat, hbytes, hopcode⟩ := hprior
  have hle := hmax text mem_cons_self
  rw [← htext, length_append] at hle
  have hd : { c with alive := true }.dispatch maxMessageBytes ⟨true, 0, payload⟩ =
      { c with alive := true, fragments := [], fragmentBytes := 0 }.perform
        [.onMessage (withoutMark text)] := by
    rw [← emitMessage_encode, ← htext, ← hflat]
    simp [dispatch, hne, hopcode, hbytes, hle]
  rw [hdrain, hd]
  obtain ⟨hshut, heffs⟩ := ih (fun text ht => hmax text (mem_cons_of_mem _ ht))
    (({ c with alive := true, fragments := [], fragmentBytes := 0 }.perform
      [.onMessage (withoutMark text)]).withBuffer (wire'.flatMap ClientFrame.bytes)) wire' hwire' hc
    (by exact rfl) rfl
  use hshut
  rw [heffs]
  simp [perform, delivered]

/-- The connection does what it does at what a client sends, however the bytes are cut into
chunks. -/
theorem receive_fragmented {wire : List ClientFrame} {sent : List Sent}
    {chunks : List (List UInt8)} (hsent : Fragmented none (wire.map (·.frame)) sent)
    (hmax : ∀ text, .message text ∈ sent → (Utf8.encode text).length ≤ maxMessageBytes)
    (hchunks : chunks.flatten = wire.flatMap ClientFrame.bytes) :
  (receive maxMessageBytes chunks).closed = false ∧
    (receive maxMessageBytes chunks).effects = sent.map delivered
  := by
  have halike := @receive_alike maxMessageBytes chunks
  rw [halike.closed, halike.effects]
  exact drain_fragmented hsent hmax _ wire rfl rfl rfl hchunks

end Wire

end WsConnection

/-! ### The result -/

open WsConnection

/-- The connection stays open. It calls back with exactly the texts that a client sends, and answers
its pings, in order, if and only if no text starts with a byte order mark. For any bytes, what it
calls and writes does not depend on how they are cut into chunks. -/
theorem reassembles_iff {maxMessageBytes : ℕ} {wire : List ClientFrame} {sent : List Sent}
    {chunks : List (List UInt8)} (hsent : Fragmented none (wire.map (·.frame)) sent)
    (hmax : ∀ text, .message text ∈ sent → (Utf8.encode text).length ≤ maxMessageBytes)
    (hchunks : chunks.flatten = wire.flatMap ClientFrame.bytes) :
  (receive maxMessageBytes chunks).closed = false ∧
    ((receive maxMessageBytes chunks).effects = sent.map Sent.effect ↔
      ∀ text, .message text ∈ sent → text.head? ≠ some '\ufeff') ∧
    ∀ cut cut' : List (List UInt8), cut.flatten = cut'.flatten →
      (receive maxMessageBytes cut).effects = (receive maxMessageBytes cut').effects
  := by
  obtain ⟨hshut, heffs⟩ := receive_fragmented hsent hmax hchunks
  use hshut
  constructor
  · rw [heffs, map_inj_left]
    constructor
    · intro h text ht
      exact (withoutMark_eq_self_iff text).mp (Effect.onMessage.inj (h _ ht))
    · rintro h (text | payload) hs
      · rw [delivered, Sent.effect, (withoutMark_eq_self_iff text).mpr (h text hs)]
      · rfl
  · intro cut cut' hcut
    exact receive_flatten hcut

/-- A text in two fragments with a ping between, cut inside the masking key of the ping. -/
theorem reassembles_iff_ping :
  (receive 2 [[0x01, 0x81, 1, 2, 3, 4, 0x60, 0x89, 0xfe, 0x00],
    [0x01, 0, 0], [0, 0, 7, 0x80, 0x81, 0, 0, 0, 0, 0x62]]).effects =
      [.write [0x8a, 1, 7], .onMessage ['a', 'b']]
  := by
  have h := @reassembles_iff 2
    [⟨⟨false, 1, [0x61]⟩, [1, 2, 3, 4], .short, by decide, rfl, by decide⟩,
      ⟨⟨true, 9, [7]⟩, [0, 0, 0, 0], .medium, by decide, rfl, by decide⟩,
      ⟨⟨true, 0, [0x62]⟩, [0, 0, 0, 0], .short, by decide, rfl, by decide⟩]
    [.ping [7], .message ['a', 'b']] _
    (.first (.ping (by decide) (.last ['a', 'b'] (by decide) .done)))
    (by simp [Utf8.encode]; decide) rfl
  apply h.2.1.mpr
  simp

/-- The text starts with a byte order mark, and the connection calls back without it. -/
theorem not_reassembles :
  (receive 8 [[0x81, 0x84, 0, 0, 0, 0, 0xef, 0xbb, 0xbf, 0x61]]).effects ≠
    [Sent.effect (.message ['\ufeff', 'a'])]
  := by
  decide

end WebSocket
