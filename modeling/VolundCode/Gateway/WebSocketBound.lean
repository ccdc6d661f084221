import VolundCode.Gateway.WebSocketMessages

/-!
# What a WebSocket connection retains

A connection retains the bytes that it has not parsed and the fragments of a text. The limit on
messages is looked at when a frame is complete, and so the header of a frame may announce any length,
and empty fragments are collected without limit (`retains_more`). If no header announces more than
the limit, the bytes are bounded, and if every fragment but the last has a byte, so is the number of
fragments (`bounded_of_announced`).
-/

namespace WebSocket

open List

/-! ### What the bytes announce -/

/-- The header of one of the frames in the bytes, or of the one that is not complete behind them. -/
inductive Announces : List UInt8 → Header → Prop where
  | here {bs : List UInt8} {h : Header} (hh : header bs = some h) : Announces bs h
  | behind {bs rest : List UInt8} {frame : Frame} {h : Header}
      (hp : parseFrame bs = .frame frame rest) (hh : Announces rest h) : Announces bs h

/-- Too few bytes have arrived for a header. -/
theorem length_lt_of_header {buffer : List UInt8} (h : header buffer = none) :
  buffer.length < 10
  := by
  match buffer, h with
  | [], _ | [_], _ => simp
  | b0 :: b1 :: rest, h =>
    rw [header] at h
    split_ifs at h
    all_goals
      simp only [length_cons]
      omega

/-- The parser waits only for what a header has announced. -/
theorem length_lt_of_wait {limit : ℕ} {buffer : List UInt8} (hp : parseFrame buffer = .wait)
    (hlimit : ∀ h, header buffer = some h → h.length ≤ limit) :
  buffer.length < limit + 14
  := by
  cases hh : header buffer with
  | none => exact (length_lt_of_header hh).trans_le (by omega)
  | some h =>
  have hle := hlimit h hh
  have hoffset := offset_le_of_header hh
  rw [parseFrame, hh] at hp
  simp only at hp
  split_ifs at hp
  omega

namespace WsConnection

/-- The bytes that a connection retains. -/
def retained (c : WsConnection) : ℕ :=
  c.buffer.length + c.fragments.flatten.length

/-! ### What is collected -/

section Collected

variable {maxMessageBytes : ℕ}

variable {c : WsConnection}

/-- A connection that is still open has called back with the text. -/
theorem emitMessage_open {payload : List UInt8} (h : (c.emitMessage payload).closed = false) :
  (c.emitMessage payload).fragments = c.fragments ∧
    (c.emitMessage payload).fragmentBytes = c.fragmentBytes
  := by
  rw [emitMessage] at h ⊢
  cases hd : decodeText payload with
  | none =>
    rw [hd] at h
    cases h.symm.trans (fail_closed c _ _)
  | some text => exact ⟨rfl, rfl⟩

/-- A frame that does not close the connection leaves the fragments as they are, or takes them away,
or is a fragment that fits within the limit. -/
theorem dispatch_open {frame : Frame} (h : (c.dispatch maxMessageBytes frame).closed = false) :
  ((c.dispatch maxMessageBytes frame).fragments = c.fragments ∧
      (c.dispatch maxMessageBytes frame).fragmentBytes = c.fragmentBytes) ∨
    (c.dispatch maxMessageBytes frame).fragments = [] ∨
    frame.fin = false ∧ frame.opcode < 8 ∧
      (c.dispatch maxMessageBytes frame).fragmentBytes ≤ maxMessageBytes ∧
      (c.fragments = [] ∧ (c.dispatch maxMessageBytes frame).fragments = [frame.payload] ∧
          (c.dispatch maxMessageBytes frame).fragmentBytes = frame.payload.length ∨
        c.fragments ≠ [] ∧
          (c.dispatch maxMessageBytes frame).fragments = c.fragments ++ [frame.payload] ∧
          (c.dispatch maxMessageBytes frame).fragmentBytes = c.fragmentBytes + frame.payload.length)
  := by
  have hfail {d : WsConnection} {code : ℕ} {reason : String}
      (hd : (d.fail code reason).closed = false) : False := by
    cases hd.symm.trans (fail_closed d code reason)
  simp only [dispatch] at h ⊢
  by_cases hcontrol : 8 ≤ frame.opcode
  · simp only [if_pos hcontrol] at h ⊢
    split_ifs at h ⊢
    all_goals
      first
      | exact (hfail h).elim
      | exact Or.inl ⟨rfl, rfl⟩
      | (left; rw [terminate]; split_ifs <;> exact ⟨rfl, rfl⟩)
  simp only [if_neg hcontrol] at h ⊢
  by_cases hbinary : frame.opcode = 2
  · simp only [if_pos hbinary] at h
    exact (hfail h).elim
  simp only [if_neg hbinary] at h ⊢
  by_cases htext : frame.opcode = 1
  · simp only [if_pos htext] at h ⊢
    by_cases hnew : 0 < c.fragments.length
    · simp only [if_pos hnew] at h
      exact (hfail h).elim
    simp only [if_neg hnew] at h ⊢
    by_cases hbig : maxMessageBytes < frame.payload.length
    · simp only [if_pos hbig] at h
      exact (hfail h).elim
    simp only [if_neg hbig] at h ⊢
    cases hfin : frame.fin with
    | true =>
      simp only [hfin, if_true] at h ⊢
      exact Or.inl (emitMessage_open h)
    | false =>
    right
    right
    have hnil : c.fragments = [] := eq_nil_of_length_eq_zero (by omega)
    exact ⟨rfl, by omega, by simpa using hbig, Or.inl ⟨hnil, rfl, rfl⟩⟩
  simp only [if_neg htext] at h ⊢
  by_cases hnext : frame.opcode = 0
  · simp only [if_pos hnext] at h ⊢
    by_cases hnone : c.fragments.length = 0 ∨ c.fragmentOpcode ≠ 1
    · simp only [if_pos hnone] at h
      exact (hfail h).elim
    simp only [if_neg hnone] at h ⊢
    by_cases hbig : maxMessageBytes < c.fragmentBytes + frame.payload.length
    · simp only [if_pos hbig] at h
      exact (hfail h).elim
    simp only [if_neg hbig] at h ⊢
    cases hfin : frame.fin with
    | true =>
      simp only [hfin, if_true] at h ⊢
      exact Or.inr (Or.inl (emitMessage_open h).1)
    | false =>
    right
    right
    have hne : c.fragments ≠ [] := by
      rintro hnil
      exact hnone (Or.inl (by simp [hnil]))
    exact ⟨rfl, by omega, by simpa using hbig, Or.inr ⟨hne, rfl, rfl⟩⟩
  · simp only [if_neg hnext] at h
    exact (hfail h).elim

/-! ### The bounds -/

/-- What holds of a connection that is open when the bytes `rest` of `stream` have not arrived: its
fragments are within the limit, there are no more of them than bytes if every fragment but the last
of a text has a byte, and what its buffer announces is announced by the stream. -/
structure Within (maxMessageBytes : ℕ) (stream rest : List UInt8) (c : WsConnection) : Prop where
  bytes : c.fragments.flatten.length ≤ maxMessageBytes
  sum : c.fragments ≠ [] → c.fragmentBytes = c.fragments.flatten.length
  count : (∀ h, Announces stream h → h.fin = false → h.opcode < 8 → 0 < h.length) →
    c.fragments.length ≤ c.fragments.flatten.length
  announces : ∀ h, Announces (c.buffer ++ rest) h → Announces stream h

theorem turn_open (h : (c.turn maxMessageBytes).closed = false) :
  c.closed = false
  := by
  cases hc : c.closed with
  | false => rfl
  | true =>
    rw [turn_closed hc, hc] at h
    cases h

variable {rest : List UInt8}

/-- A frame that is parsed was announced with the length of its payload. -/
theorem announces_of_parseFrame {buffer rest ext : List UInt8} {frame : Frame}
    (hp : parseFrame buffer = .frame frame rest) :
  ∃ h, Announces (buffer ++ ext) h ∧ h.fin = frame.fin ∧ h.opcode = frame.opcode ∧
    h.length = frame.payload.length
  := by
  obtain ⟨h, hh, -, -, hlen, rfl, rfl⟩ := parseFrame_eq_frame_iff.mp hp
  use h, .here (header_append hh ext), rfl, rfl
  rw [length_unmask, length_take, length_drop]
  omega

variable {stream : List UInt8}

/-- A turn keeps the bounds. -/
theorem within_turn
    (hw : Within maxMessageBytes stream rest c) (h : (c.turn maxMessageBytes).closed = false) :
  Within maxMessageBytes stream rest (c.turn maxMessageBytes)
  := by
  have hc := turn_open h
  cases hp : parseFrame c.buffer with
  | wait =>
    have hturn : c.turn maxMessageBytes = c := by simp [turn, hc, hp]
    rw [hturn]
    exact hw
  | fail code reason =>
    have hturn : c.turn maxMessageBytes = c.fail code reason := by simp [turn, hc, hp]
    rw [hturn] at h
    cases h.symm.trans (fail_closed c code reason)
  | frame frame behind =>
  rw [turn_frame hc hp] at h ⊢
  have hannounces : ∀ h, Announces (behind ++ rest) h → Announces stream h := by
    intro h hh
    exact hw.announces h (.behind (parseFrame_append hp rest) hh)
  have hcases := dispatch_open h
  generalize { c with alive := true }.dispatch maxMessageBytes frame = d at hcases
  obtain ⟨hfrags, hbytes⟩ | hnil | ⟨hfin, hopcode, hle, hnew⟩ := hcases
  · have hfrags : d.fragments = c.fragments := hfrags
    have hbytes : d.fragmentBytes = c.fragmentBytes := hbytes
    refine ⟨?_, ?_, ?_, hannounces⟩
    · rw [withBuffer, hfrags]
      exact hw.bytes
    · rw [withBuffer, hfrags, hbytes]
      exact hw.sum
    · rw [withBuffer, hfrags]
      exact hw.count
  · refine ⟨?_, ?_, ?_, hannounces⟩
    · simp [withBuffer, hnil]
    · intro hne
      exact absurd hnil hne
    · simp [withBuffer, hnil]
  obtain ⟨header, hheader, hhfin, hhopcode, hhlength⟩ := @announces_of_parseFrame _ _ rest _ hp
  have hpos (hdata : ∀ h, Announces stream h → h.fin = false → h.opcode < 8 →
      0 < h.length) : 0 < frame.payload.length := by
    rw [← hhlength]
    exact hdata header (hw.announces header hheader) (hhfin.trans hfin)
      (hhopcode ▸ hopcode)
  obtain ⟨-, hfrags, hbytes⟩ | ⟨hne, hfrags, hbytes⟩ := hnew
  · refine ⟨?_, ?_, ?_, hannounces⟩
    · simpa [withBuffer, hfrags] using hbytes ▸ hle
    · intro _
      simpa [withBuffer, hfrags] using hbytes
    intro hdata
    have hone := hpos hdata
    simp only [withBuffer, hfrags, flatten_singleton, length_singleton]
    omega
  have hsum : c.fragmentBytes = c.fragments.flatten.length := hw.sum hne
  have hfrags : d.fragments = c.fragments ++ [frame.payload] := hfrags
  have hbytes : d.fragmentBytes = c.fragmentBytes + frame.payload.length := hbytes
  have hflat : d.fragments.flatten.length = c.fragments.flatten.length + frame.payload.length := by
    rw [hfrags, flatten_append, flatten_singleton, length_append]
  refine ⟨?_, ?_, ?_, hannounces⟩
  · change d.fragments.flatten.length ≤ _
    omega
  · intro _
    change d.fragmentBytes = d.fragments.flatten.length
    omega
  intro hdata
  have hcount := hw.count hdata
  have hone := hpos hdata
  change d.fragments.length ≤ d.fragments.flatten.length
  rw [hflat, hfrags, length_append, length_singleton]
  omega

theorem iterate_open {k : ℕ} (h : ((turn maxMessageBytes)^[k] c).closed = false) :
  c.closed = false
  := by
  induction k generalizing c with
  | zero => exact h
  | succ k ih => exact turn_open (ih h)

theorem within_iterate (k : ℕ) (hw : Within maxMessageBytes stream rest c)
    (h : ((turn maxMessageBytes)^[k] c).closed = false) :
  Within maxMessageBytes stream rest ((turn maxMessageBytes)^[k] c)
  := by
  induction k generalizing c with
  | zero => exact hw
  | succ k ih => exact ih (within_turn hw (iterate_open h)) h

/-- A chunk that arrives is part of the stream. -/
theorem within_push {chunk : List UInt8}
    (hw : Within maxMessageBytes stream (chunk ++ rest) c) (hc : c.closed = false) :
  Within maxMessageBytes stream rest (c.push chunk)
  := by
  rw [push_open hc]
  use hw.bytes, hw.sum, hw.count
  intro h hh
  apply hw.announces h
  rw [withBuffer, append_assoc] at hh
  exact hh

theorem closed_push (c : WsConnection) (chunk : List UInt8) :
  (c.push chunk).closed = c.closed
  := by
  rw [push]
  split_ifs
  · rfl
  · rfl

theorem consume_open {chunk : List UInt8} (h : (c.consume maxMessageBytes chunk).closed = false) :
  c.closed = false
  := by
  rw [← closed_push c chunk]
  exact iterate_open h

theorem within_receive (chunks : List (List UInt8)) (hstream : stream = chunks.flatten ++ rest)
    (h : (receive maxMessageBytes chunks).closed = false) :
  Within maxMessageBytes stream rest (receive maxMessageBytes chunks)
  := by
  induction chunks using List.reverseRecOn generalizing rest with
  | nil =>
    obtain rfl : stream = rest := hstream
    exact ⟨Nat.zero_le _, fun hne => absurd rfl hne, fun _ => le_rfl, fun h hh => hh⟩
  | append_singleton chunks chunk ih =>
  rw [receive, foldl_concat] at h ⊢
  apply within_iterate _ _ h
  apply within_push _ (consume_open h)
  apply ih _ (consume_open h)
  rw [hstream, flatten_append, flatten_singleton, append_assoc]

theorem length_iterate_le (k : ℕ) (c : WsConnection) :
  ((turn maxMessageBytes)^[k] c).buffer.length ≤ c.buffer.length
  := by
  induction k generalizing c with
  | zero => exact le_rfl
  | succ k ih => exact (ih _).trans (length_turn_le maxMessageBytes c)

/-- What the parser waits for when all chunks have been consumed. -/
theorem length_receive_lt {limit : ℕ} (chunks : List (List UInt8))
    (hstream : stream = chunks.flatten ++ rest)
    (hlimit : ∀ h, Announces stream h → h.length ≤ limit)
    (h : (receive maxMessageBytes chunks).closed = false) :
  (receive maxMessageBytes chunks).buffer.length < limit + 14
  := by
  have hturn : (receive maxMessageBytes chunks).turn maxMessageBytes =
      receive maxMessageBytes chunks := by
    obtain rfl | ⟨chunks, chunk, rfl⟩ := eq_nil_or_concat' chunks
    · rfl
    · rw [receive, foldl_concat]
      exact turn_drain maxMessageBytes _
  apply length_lt_of_wait
  · cases hp : parseFrame (receive maxMessageBytes chunks).buffer with
    | wait => rfl
    | fail code reason =>
      rw [turn, if_neg (by simp [h]), hp] at hturn
      cases (hturn ▸ h).symm.trans (fail_closed _ code reason)
    | frame frame rest =>
      have hlt := length_lt_of_parseFrame hp
      rw [turn_frame h hp] at hturn
      have hrest := congrArg WsConnection.buffer hturn
      exact absurd (congrArg List.length hrest) hlt.ne
  intro header hheader
  apply hlimit
  apply (within_receive chunks hstream h).announces
  exact .here (header_append hheader rest)

end Collected

end WsConnection

/-! ### The result -/

open WsConnection

/-- At every turn after every chunk, as long as the connection is open: if no header announces more
than the limit, twice the limit, a header and the last chunk bound the bytes that it retains. If
every frame of a text but its last one has a byte, the limit bounds the number of fragments. -/
theorem bounded_of_announced {maxMessageBytes : ℕ} {chunks : List (List UInt8)}
    {chunk : List UInt8} {k : ℕ} {c : WsConnection}
    (hc : c = (turn maxMessageBytes)^[k] ((receive maxMessageBytes chunks).push chunk))
    (hopen : c.closed = false) :
  ((∀ h, Announces (chunks.flatten ++ chunk) h → h.length ≤ maxMessageBytes) →
      c.retained ≤ 2 * maxMessageBytes + 14 + chunk.length) ∧
    ((∀ h, Announces (chunks.flatten ++ chunk) h → h.fin = false → h.opcode < 8 → 0 < h.length) →
      c.fragments.length ≤ maxMessageBytes)
  := by
  subst hc
  have hpush := iterate_open hopen
  have hreceive : (receive maxMessageBytes chunks).closed = false := by
    rw [← closed_push _ chunk]
    exact hpush
  have hw : Within maxMessageBytes (chunks.flatten ++ chunk) []
      ((turn maxMessageBytes)^[k] ((receive maxMessageBytes chunks).push chunk)) := by
    apply within_iterate k _ hopen
    apply within_push _ hreceive
    apply within_receive chunks _ hreceive
    rw [append_nil]
  constructor
  · intro hlimit
    have hwait := length_receive_lt chunks rfl hlimit hreceive
    have hle := @length_iterate_le maxMessageBytes k ((receive maxMessageBytes chunks).push chunk)
    have hlen : ((receive maxMessageBytes chunks).push chunk).buffer.length =
        (receive maxMessageBytes chunks).buffer.length + chunk.length := by
      rw [push_open hreceive]
      exact length_append
    have hbytes := hw.bytes
    rw [retained]
    omega
  · intro hdata
    exact (hw.count hdata).trans hw.bytes

/-- A ping is sent in two chunks. -/
theorem bounded_of_announced_ping :
  ((receive 2 [[0x89, 0x80, 0]]).push [0, 0, 0]).retained ≤ 2 * 2 + 14 + 3
  := by
  have h := @bounded_of_announced 2 [[0x89, 0x80, 0]] [0, 0, 0] 0 _ rfl rfl
  apply h.1
  rintro header (hh | ⟨hp, hh⟩)
  · cases hh
    decide
  obtain rfl := (Parsed.frame.inj hp).2
  cases hh with
  | here hh => cases hh
  | behind hp hh => cases hp

/-- A connection at which empty fragments have arrived. -/
def emptyFragments (n : ℕ) : WsConnection where
  buffer := []
  fragments := List.replicate (n + 1) []
  fragmentBytes := 0
  fragmentOpcode := 1
  closed := false
  alive := true
  effects := []

/-- An empty fragment is collected. -/
theorem consume_emptyFragments (n : ℕ) :
  (emptyFragments n).consume 1 [0x00, 0x80, 0, 0, 0, 0] = emptyFragments (n + 1)
  := by
  have hturn : ((emptyFragments n).push [0x00, 0x80, 0, 0, 0, 0]).turn 1 =
      emptyFragments (n + 1) := by
    have hp : parseFrame [0x00, 0x80, 0, 0, 0, 0] = .frame ⟨false, 0, []⟩ [] := by decide
    rw [turn_frame rfl hp, emptyFragments, emptyFragments, replicate_succ' (n := n + 1)]
    rfl
  rw [consume, ← drain_turn, hturn]
  exact drain_eq_self rfl

theorem receive_emptyFragments (n : ℕ) :
  receive 1 ([0x01, 0x80, 0, 0, 0, 0] :: List.replicate n [0x00, 0x80, 0, 0, 0, 0]) =
    emptyFragments n
  := by
  induction n with
  | zero => decide
  | succ n ih =>
    rw [replicate_succ', ← cons_append, receive, foldl_concat]
    rw [receive] at ih
    rw [ih, consume_emptyFragments]

/-- A header announces more than the limit, and the bytes behind it are kept while it is waited for
the rest. Empty fragments are kept without limit. -/
theorem retains_more :
  (∃ (chunks : List (List UInt8)) (chunk : List UInt8),
    (receive 1 (chunks ++ [chunk])).closed = false ∧
      2 * 1 + 14 + chunk.length < (receive 1 (chunks ++ [chunk])).retained) ∧
    ∀ n, ∃ chunks, (receive 1 chunks).closed = false ∧ n < (receive 1 chunks).fragments.length
  := by
  constructor
  · use [0x81, 0xff, 0, 0, 0, 0, 0, 1, 0, 0] :: List.replicate 9 [0], [0]
    decide
  intro n
  use [0x01, 0x80, 0, 0, 0, 0] :: List.replicate n [0x00, 0x80, 0, 0, 0, 0]
  rw [receive_emptyFragments]
  simp [emptyFragments]

end WebSocket
