import VolundCode.Lib.Framing
import VolundCode.Lib.JsonSpacing
import VolundCode.Lib.Splitting
import VolundCode.Lib.TextDecoder

/-!
# MCP transports

The readers of the two transports of the MCP client. `HttpSseTransport` decodes what it reads piece
by piece, takes the events that end with an empty line out of its buffer, and hands over the data of
each. `StdioTransport` takes the lines out of a buffer of bytes. Both refuse a buffer that is over
the limit.

A reader of events decodes each piece on its own and looks for line feeds only, and both readers
measure what has arrived, not the messages in it. So they deliver the messages of a stream if each
piece is decoded as it stands in the stream, lines end with a line feed, and the buffer never is
over the limit, and otherwise not (`transports_deliver_iff`).
-/

namespace McpClient

open Framing Json List Utf8

/-- What a reader fails with. -/
inductive TransportError where
  | tooLarge
  | unparsable
  | invalidUrl
deriving DecidableEq

/-- The number of bytes of a text. -/
def byteLength (text : List Char) : ℕ :=
  (Utf8.encode text).length

/-! ### Events -/

/-- What `#consumeSse` reads from, and what it has handed over. -/
structure SseReader where
  buffer : List Char
  lastEventId : Option (List Char)
  endpoint : List Char
  messages : List Json
  error : Option TransportError

/-- What the lines of an event say. -/
structure SseFields where
  type : List Char
  data : List Char
  lastEventId : Option (List Char)

/-- One line of an event. -/
def SseFields.read (fields : SseFields) (line : List Char) : SseFields :=
  if "id:".toList.isPrefixOf line then
    { fields with lastEventId := some (trimmed (line.drop 3)) }
  else if "event:".toList.isPrefixOf line then { fields with type := trimmed (line.drop 6) }
  else if "data:".toList.isPrefixOf line then
    { fields with data := fields.data ++ (trimmed (line.drop 5) ++ ['\n']) }
  else fields

section Sse

variable (resolveUrl : List Char → Option (List Char))

/-- One event. `resolveUrl` is `new URL(data, url)`. -/
def SseReader.event (s : SseReader) (frame : List Char) : SseReader :=
  let lines := (frame.filter (· ≠ '\r')).splitOn '\n'
  let fields := lines.foldl SseFields.read
    { type := "message".toList, data := [], lastEventId := s.lastEventId }
  let data := trimmedEnd fields.data
  let s := { s with lastEventId := fields.lastEventId }
  if fields.type = "endpoint".toList then
    match resolveUrl data with
    | some url => { s with endpoint := url }
    | none => { s with error := some .invalidUrl }
  else if data = [] then s
  else
    match Json.parse data with
    | some message => { s with messages := s.messages ++ [message] }
    | none => { s with error := some .unparsable }

/-- One event after another, until one fails. -/
def SseReader.events (s : SseReader) (frames : List (List Char)) : SseReader :=
  frames.foldl (fun s frame => if s.error.isSome then s else s.event resolveUrl frame) s

/-- `new TextDecoder().decode(value, { stream: true })`. -/
def decodeChunk (value : List UInt8) : List Char :=
  (Utf8.TextDecoder.new.decode value).1

/-- What is read once. -/
def SseReader.consume (limit : ℕ) (s : SseReader) (value : List UInt8) : SseReader :=
  if s.error.isSome then s
  else
    let buffer := s.buffer ++ decodeChunk value
    if limit < byteLength buffer then { s with buffer := buffer, error := some .tooLarge }
    else
      let cut := frames ['\n', '\n'] [] buffer
      { s.events resolveUrl cut.1 with buffer := cut.2 }

/-- The reader at the start of a body. -/
def SseReader.start (endpoint : List Char) (lastEventId : Option (List Char)) : SseReader where
  buffer := []
  lastEventId := lastEventId
  endpoint := endpoint
  messages := []
  error := none

/-- `#consumeSse`. -/
def consumeSse (limit : ℕ) (s : SseReader) (chunks : List (List UInt8)) : SseReader :=
  chunks.foldl (SseReader.consume resolveUrl limit) s

end Sse

/-! ### Lines -/

/-- The buffer of a `StdioTransport`, what it has handed over, and how its reader has failed. -/
structure StdioReader where
  buffer : List UInt8
  messages : List Json
  errors : List TransportError

/-- What is left to be read of lines and of what comes behind them. -/
def unread (lines : List (List UInt8)) (rest : List UInt8) : List UInt8 :=
  lines.flatMap (fun line => line ++ [10]) ++ rest

/-- The loop over the lines of the buffer. -/
def StdioReader.lines (limit : ℕ) (s : StdioReader) (rest : List UInt8) :
    List (List UInt8) → StdioReader
  | [] => { s with buffer := rest }
  | line :: lines =>
    let text := trimmed (decodeLossy line)
    if text = [] then s.lines limit rest lines
    else if limit < byteLength text then
      { s with buffer := unread lines rest, errors := s.errors ++ [.tooLarge] }
    else
      match Json.parse text with
      | some message => { s with messages := s.messages ++ [message] }.lines limit rest lines
      | none => { s with buffer := unread lines rest, errors := s.errors ++ [.unparsable] }

/-- `#consume`. -/
def StdioReader.consume (limit : ℕ) (s : StdioReader) (chunk : List UInt8) : StdioReader :=
  let buffer := s.buffer ++ chunk
  if limit < buffer.length then
    { s with buffer := buffer, errors := s.errors ++ [.tooLarge] }
  else
    let cut := frames [10] [] buffer
    s.lines limit cut.2 cut.1

/-- The reader of a process that has started. -/
def StdioReader.start : StdioReader where
  buffer := []
  messages := []
  errors := []

def consumeStdio (limit : ℕ) (chunks : List (List UInt8)) : StdioReader :=
  chunks.foldl (StdioReader.consume limit) .start

/-! ### Streams of messages -/

inductive LineEnding where
  | lf
  | crlf
deriving DecidableEq

def LineEnding.chars : LineEnding → List Char
  | .lf => ['\n']
  | .crlf => ['\r', '\n']

/-- A line of an event. -/
inductive SseLine where
  | comment (text : List Char)
  | id (text : List Char)
  | data (text : List Char)

def SseLine.chars : SseLine → List Char
  | .comment text => ':' :: text
  | .id text => "id:".toList ++ text
  | .data text => "data:".toList ++ text

/-- What a line adds to the data of its event: a space behind the colon does not belong to it. -/
def SseLine.value : SseLine → Option (List Char)
  | .data (' ' :: text) => some text
  | .data text => some text
  | _ => none

/-- There are no lines of data and no message, or the lines stand for the message. -/
def Carried (values : List (List Char)) (message : Option Json) : Prop :=
  (values = [] ∧ message = none) ∨
    ∃ v, message = some v ∧ Json.parse (['\n'].intercalate values) = some v

/-- An event with a message in its data, or without data. -/
structure SseEvent where
  lines : List SseLine
  message : Option Json
  nonempty : lines ≠ []
  unbroken : ∀ line ∈ lines, '\n' ∉ line.chars ∧ '\r' ∉ line.chars
  carries : Carried (lines.filterMap SseLine.value) message

/-- The text of an event: its lines and an empty one. -/
def SseEvent.chars (ending : LineEnding) (event : SseEvent) : List Char :=
  (event.lines.flatMap fun line => line.chars ++ ending.chars) ++ ending.chars

/-- The text of a stream of events. -/
def sseText (ending : LineEnding) (events : List SseEvent) : List Char :=
  events.flatMap (SseEvent.chars ending)

/-- A line with a message in it, or a blank one. -/
structure StdioLine where
  text : List Char
  message : Option Json
  unbroken : '\n' ∉ text
  carries : (trimmed text = [] ∧ message = none) ∨ ∃ v, message = some v ∧ Json.parse text = some v

/-- The bytes of lines. -/
def stdioBytes (lines : List StdioLine) : List UInt8 :=
  lines.flatMap fun line => Utf8.encode line.text ++ [10]

/-! ### One event -/

theorem trimmed_space (text : List Char) :
  trimmed (' ' :: text) = trimmed text
  := by
  rw [trimmed, dropWhile_cons_of_pos (by decide), trimmed]

/-- The data of an event, as the reader collects them. -/
def collected (values : List (List Char)) : List Char :=
  values.flatMap fun value => trimmed value ++ ['\n']

/-- A line adds its value to the data. -/
theorem read_line (fields : SseFields) (line : SseLine) :
  (fields.read line.chars).type = fields.type ∧
    (fields.read line.chars).data = fields.data ++ collected line.value.toList
  := by
  cases line with
  | comment text =>
    have hnot : ∀ name : List Char, name.head? ≠ some ':' → name ≠ [] →
        name.isPrefixOf (':' :: text) ≠ true := by
      intro name hhead hne hstart
      rw [List.isPrefixOf_iff_prefix] at hstart
      obtain ⟨c, name, rfl⟩ := exists_cons_of_ne_nil hne
      rw [cons_prefix_cons] at hstart
      apply hhead
      rw [hstart.1]
      rfl
    rw [SseLine.chars, SseFields.read, if_neg (hnot _ (by decide) (by decide)),
      if_neg (hnot _ (by decide) (by decide)), if_neg (hnot _ (by decide) (by decide))]
    simp [SseLine.value, collected]
  | id text => simp [SseLine.chars, SseFields.read, SseLine.value, collected]
  | data text =>
  have hvalue : collected (SseLine.data text).value.toList = trimmed text ++ ['\n'] := by
    unfold SseLine.value
    split
    · rename_i heq
      obtain rfl := SseLine.data.inj heq
      simp [collected, trimmed_space]
    · rename_i heq
      obtain rfl := SseLine.data.inj heq
      simp [collected]
    · next hne => exact absurd rfl (hne text)
  rw [hvalue]
  simp [SseLine.chars, SseFields.read]

/-- The lines of an event add their values to the data. -/
theorem read_lines (fields : SseFields) (lines : List SseLine) :
  ((lines.map SseLine.chars).foldl SseFields.read fields).type = fields.type ∧
    ((lines.map SseLine.chars).foldl SseFields.read fields).data =
      fields.data ++ collected (lines.filterMap SseLine.value)
  := by
  induction lines generalizing fields with
  | nil => simp [collected]
  | cons line lines ih =>
  obtain ⟨htype, hdata⟩ := read_line fields line
  obtain ⟨htypes, hdatas⟩ := ih (fields.read line.chars)
  rw [map_cons, foldl_cons]
  use htypes.trans htype
  rw [hdatas, hdata, append_assoc]
  congr 1
  cases hvalue : line.value with
  | none => rw [filterMap_cons_none hvalue]; rfl
  | some value =>
    rw [filterMap_cons_some hvalue]
    simp [collected]

/-- What is in the buffer of an event: its lines, but for the end of the last one. -/
def SseEvent.frame (event : SseEvent) : List Char :=
  ['\n'].intercalate (event.lines.map SseLine.chars)

theorem SseEvent.split_frame (event : SseEvent) :
  (event.frame.filter (· ≠ '\r')).splitOn '\n' = event.lines.map SseLine.chars
  := by
  have hkeep : event.frame.filter (· ≠ '\r') = event.frame := by
    rw [filter_eq_self]
    intro c hc
    rcases Splitting.mem_intercalate hc with rfl | ⟨chars, hchars, hmem⟩
    · decide
    obtain ⟨line, hline, rfl⟩ := mem_map.mp hchars
    rw [decide_eq_true_eq]
    rintro rfl
    apply (event.unbroken line hline).2 hmem
  rw [hkeep, SseEvent.frame, splitOn_intercalate]
  · intro chars hchars
    obtain ⟨line, hline, rfl⟩ := mem_map.mp hchars
    apply (event.unbroken line hline).1
  · intro hnil
    apply event.nonempty
    simpa using hnil

variable {resolveUrl : List Char → Option (List Char)}

/-- An event hands over its message. -/
theorem event_frame (s : SseReader) (event : SseEvent) (h : s.error = none) :
  (s.event resolveUrl event.frame).error = none ∧
    (s.event resolveUrl event.frame).messages = s.messages ++ event.message.toList
  := by
  obtain ⟨htype, hdata⟩ := read_lines
    { type := "message".toList, data := [], lastEventId := s.lastEventId } event.lines
  unfold SseReader.event
  rw [event.split_frame]
  dsimp only at htype hdata ⊢
  rw [htype, hdata, nil_append, if_neg (by decide)]
  rcases event.carries with ⟨hnone, hmsg⟩ | ⟨v, hmsg, hparse⟩
  · have hempty : trimmedEnd (collected (event.lines.filterMap SseLine.value)) = [] := by
      rw [hnone]
      rfl
    rw [if_pos hempty, hmsg]
    simp [h]
  have hread : Json.parse (trimmedEnd (collected (event.lines.filterMap SseLine.value))) =
      some v := parse_trimmed hparse
  have hne : trimmedEnd (collected (event.lines.filterMap SseLine.value)) ≠ [] := by
    intro hnil
    rw [hnil] at hread
    cases hread
  rw [if_neg hne, hread, hmsg]
  simp [h]

/-! ### A stream of events -/

/-- The frame hands over the messages. -/
def Yields (resolveUrl : List Char → Option (List Char)) (frame : List Char)
    (messages : List Json) : Prop :=
  ∀ s : SseReader, s.error = none → (s.event resolveUrl frame).error = none ∧
    (s.event resolveUrl frame).messages = s.messages ++ messages

variable {limit : ℕ} {yield : List Char → List Json}

theorem events_yield {s : SseReader} (h : s.error = none) {frames : List (List Char)}
    (hframes : ∀ frame ∈ frames, Yields resolveUrl frame (yield frame)) :
  (s.events resolveUrl frames).error = none ∧
    (s.events resolveUrl frames).messages = s.messages ++ frames.flatMap yield
  := by
  induction frames generalizing s with
  | nil =>
    use h
    simp [SseReader.events]
  | cons frame frames ih =>
  obtain ⟨herror, hmsgs⟩ := hframes frame mem_cons_self s h
  obtain ⟨herrors, hrest⟩ := ih herror fun f hf => hframes f (mem_cons_of_mem frame hf)
  have hcons : s.events resolveUrl (frame :: frames) =
      (s.event resolveUrl frame).events resolveUrl frames := by
    rw [SseReader.events, foldl_cons, h]
    rfl
  rw [hcons]
  use herrors
  rw [hrest, hmsgs, append_assoc, flatMap_cons]

/-- The separator of events. -/
theorem separator_ne_nil :
  (['\n', '\n'] : List Char) ≠ []
  := by decide

variable {chunks : List (List UInt8)}

/-- As long as the buffer is within the limit, the frames hand over their messages. -/
theorem consumeSse_fits {past : List Char} {s : SseReader}
    (h : s.error = none) (hbuf : s.buffer = rest ['\n', '\n'] past)
    (hfits : Fits ['\n', '\n'] byteLength limit past (chunks.map decodeChunk))
    (hframes : ∀ frame ∈ pieces ['\n', '\n'] (s.buffer ++ chunks.flatMap decodeChunk),
      Yields resolveUrl frame (yield frame)) :
  (consumeSse resolveUrl limit s chunks).error = none ∧
    (consumeSse resolveUrl limit s chunks).messages = s.messages ++
        (pieces ['\n', '\n'] (s.buffer ++ chunks.flatMap decodeChunk)).flatMap yield
  := by
  induction chunks generalizing past s with
  | nil =>
    use h
    rw [flatMap_nil, append_nil, hbuf, pieces, frames_of_free]
    · simp [consumeSse]
    · apply free_rest separator_ne_nil
  | cons chunk chunks ih =>
  obtain ⟨hlimit, hrest⟩ := hfits
  rw [← hbuf] at hlimit
  have hsplit : pieces ['\n', '\n'] (s.buffer ++ (chunk :: chunks).flatMap decodeChunk) =
      pieces ['\n', '\n'] (s.buffer ++ decodeChunk chunk) ++
        pieces ['\n', '\n'] (rest ['\n', '\n'] (s.buffer ++ decodeChunk chunk) ++
          chunks.flatMap decodeChunk) := by
    rw [flatMap_cons, ← append_assoc, pieces_append separator_ne_nil]
  rw [hsplit] at hframes ⊢
  have hnow := events_yield h fun frame hframe =>
    hframes frame (mem_append_left _ hframe)
  have hstep : s.consume resolveUrl limit chunk =
      { s.events resolveUrl (pieces ['\n', '\n'] (s.buffer ++ decodeChunk chunk)) with
        buffer := rest ['\n', '\n'] (s.buffer ++ decodeChunk chunk) } := by
    rw [SseReader.consume, h]
    simp only [Option.isSome_none, Bool.false_eq_true, if_false, if_neg (Nat.not_lt.mpr hlimit)]
    rfl
  rw [consumeSse, foldl_cons, hstep]
  have hsame : rest ['\n', '\n'] (s.buffer ++ decodeChunk chunk) =
      rest ['\n', '\n'] (past ++ decodeChunk chunk) := by
    rw [rest_append separator_ne_nil past, hbuf]
  have hlater := @ih (past ++ decodeChunk chunk)
    { s.events resolveUrl (pieces ['\n', '\n'] (s.buffer ++ decodeChunk chunk)) with
      buffer := rest ['\n', '\n'] (s.buffer ++ decodeChunk chunk) } hnow.1
    hsame hrest
    (fun frame hframe => hframes frame (mem_append_right _ hframe))
  use hlater.1
  have hmsgs := hlater.2
  rw [consumeSse] at hmsgs
  rw [hmsgs, hnow.2, append_assoc, flatMap_append]

/-- A reader that has failed stays so. -/
theorem error_consumeSse {s : SseReader} (h : (consumeSse resolveUrl limit s chunks).error = none) :
  s.error = none
  := by
  induction chunks generalizing s with
  | nil => exact h
  | cons chunk chunks ih =>
  by_contra hsome
  have hstays : s.consume resolveUrl limit chunk = s := by
    rw [SseReader.consume, if_pos]
    rw [Option.isSome_iff_ne_none]
    exact hsome
  apply hsome
  rw [← hstays]
  apply ih h

/-- If nothing fails the buffer was within the limit. -/
theorem fits_of_consumeSse {past : List Char} {s : SseReader}
    (hbuf : s.buffer = rest ['\n', '\n'] past)
    (h : (consumeSse resolveUrl limit s chunks).error = none) :
  Fits ['\n', '\n'] byteLength limit past (chunks.map decodeChunk)
  := by
  induction chunks generalizing past s with
  | nil => trivial
  | cons chunk chunks ih =>
  have hs := error_consumeSse h
  have hnext : (s.consume resolveUrl limit chunk).error = none := error_consumeSse h
  rw [SseReader.consume, hs] at hnext
  simp only [Option.isSome_none, Bool.false_eq_true, if_false] at hnext
  split at hnext
  · cases hnext
  rename_i hlimit
  rw [map_cons, Fits, ← hbuf]
  use Nat.not_lt.mp hlimit
  apply ih _ h
  rw [SseReader.consume, hs]
  simp only [Option.isSome_none, Bool.false_eq_true, if_false, if_neg hlimit]
  rw [rest_append separator_ne_nil past, ← hbuf]
  rfl

theorem flatMap_lines {ls : List (List Char)} (h : ls ≠ []) :
  (ls.flatMap fun l => l ++ ['\n']) = ['\n'].intercalate ls ++ ['\n']
  := by
  induction ls with
  | nil => exact absurd rfl h
  | cons l ls ih =>
  cases ls with
  | nil => simp
  | cons l' ls =>
    rw [flatMap_cons, ih (cons_ne_nil l' ls), Splitting.intercalate_cons_cons]
    simp

theorem SseLine.chars_ne_nil (line : SseLine) :
  line.chars ≠ []
  := by
  cases line with
  | _ => simp [SseLine.chars]

/-- With line feeds, the text of an event is what is in the buffer of it, and the separator. -/
theorem SseEvent.chars_lf (event : SseEvent) :
  event.chars .lf = event.frame ++ ['\n', '\n']
  := by
  have hne : event.lines.map SseLine.chars ≠ [] := by simpa using event.nonempty
  have hlines := flatMap_lines hne
  rw [flatMap_map] at hlines
  rw [SseEvent.chars, SseEvent.frame]
  simp only [LineEnding.chars]
  rw [hlines, append_assoc]
  rfl

theorem SseEvent.sole_frame (event : SseEvent) :
  Sole ['\n', '\n'] event.frame
  := by
  apply sole_pair
  rw [SseEvent.frame, ← flatMap_lines (by simpa using event.nonempty)]
  apply spread_lines
  intro chars hchars
  obtain ⟨line, hline, rfl⟩ := mem_map.mp hchars
  use line.chars_ne_nil, (event.unbroken line hline).1

/-- With line feeds, the frames of a stream are its events. -/
theorem pieces_lf (events : List SseEvent) :
  pieces ['\n', '\n'] (sseText .lf events) = events.map SseEvent.frame
  := by
  have htext : sseText .lf events =
      (events.map SseEvent.frame).flatMap (fun p => p ++ ['\n', '\n']) ++ [] := by
    rw [append_nil, flatMap_map, sseText]
    congr 1
    funext event
    apply event.chars_lf
  rw [htext, pieces, frames_flatMap separator_ne_nil]
  · intro frame hframe
    obtain ⟨event, -, rfl⟩ := mem_map.mp hframe
    apply event.sole_frame
  · intro hinfix
    exact separator_ne_nil (eq_nil_of_infix_nil hinfix)

/-- With carriage returns in front of the line feeds there are no frames. -/
theorem pieces_crlf (events : List SseEvent) :
  pieces ['\n', '\n'] (sseText .crlf events) = []
  := by
  have htext : sseText .crlf events =
      (events.flatMap fun event => event.lines.map (fun line => line.chars ++ ['\r']) ++
        [['\r']]).flatMap fun l => l ++ ['\n'] := by
    rw [sseText, flatMap_assoc]
    congr 1
    funext event
    simp [SseEvent.chars, LineEnding.chars, flatMap_map]
  rw [pieces, frames_of_free]
  apply Spread.free
  rw [nil_append, htext]
  apply spread_lines
  intro l hl
  obtain ⟨event, -, hl⟩ := mem_flatMap.mp hl
  rcases mem_append.mp hl with hl | hl
  · obtain ⟨line, hline, rfl⟩ := mem_map.mp hl
    have hwhole := (event.unbroken line hline).1
    simp [hwhole]
  · obtain rfl := mem_singleton.mp hl
    decide

/-- A reader that decodes a stream as it stands hands over its messages if its lines end with line
feeds or there are none, and the buffer stays within the limit. -/
theorem consumeSse_iff {ending : LineEnding} {events : List SseEvent}
    (hintact : chunks.flatMap decodeChunk = sseText ending events)
    (endpoint : List Char) (lastEventId : Option (List Char)) :
  (consumeSse resolveUrl limit (.start endpoint lastEventId) chunks).error = none ∧
      (consumeSse resolveUrl limit (.start endpoint lastEventId) chunks).messages =
        events.filterMap SseEvent.message ↔
    Fits ['\n', '\n'] byteLength limit [] (chunks.map decodeChunk) ∧
      (ending = .lf ∨ events.filterMap SseEvent.message = [])
  := by
  have hbuf : (SseReader.start endpoint lastEventId).buffer = rest ['\n', '\n'] [] := rfl
  have hstart : (SseReader.start endpoint lastEventId).buffer ++ chunks.flatMap decodeChunk =
      sseText ending events := hintact
  let yield (frame : List Char) : List Json :=
    ((SseReader.start endpoint lastEventId).event resolveUrl frame).messages
  have hyield (event : SseEvent) : yield event.frame = event.message.toList :=
    (event_frame (.start endpoint lastEventId) event rfl).2
  have hreads (hfits : Fits ['\n', '\n'] byteLength limit [] (chunks.map decodeChunk))
      (hframes : ∀ frame ∈ pieces ['\n', '\n'] (sseText ending events),
        Yields resolveUrl frame (yield frame)) :
      (consumeSse resolveUrl limit (.start endpoint lastEventId) chunks).error = none ∧
        (consumeSse resolveUrl limit (.start endpoint lastEventId) chunks).messages =
          (pieces ['\n', '\n'] (sseText ending events)).flatMap yield := by
    have hconsume := consumeSse_fits (s := .start endpoint lastEventId) rfl hbuf hfits
      (by rw [hstart]; exact hframes)
    rw [hstart] at hconsume
    exact hconsume
  cases ending with
  | lf =>
    rw [pieces_lf] at hreads
    have hframes : ∀ frame ∈ events.map SseEvent.frame, Yields resolveUrl frame (yield frame) := by
      intro frame hframe s hs
      obtain ⟨event, -, rfl⟩ := mem_map.mp hframe
      rw [hyield]
      apply event_frame s event hs
    have hall : (events.map SseEvent.frame).flatMap yield = events.filterMap SseEvent.message := by
      rw [flatMap_map, filterMap_eq_flatMap_toList]
      congr 1
      funext event
      apply hyield
    constructor
    · rintro ⟨herror, -⟩
      use fits_of_consumeSse hbuf herror, Or.inl rfl
    · rintro ⟨hfits, -⟩
      rw [← hall]
      apply hreads hfits hframes
  | crlf =>
  rw [pieces_crlf] at hreads
  constructor
  · rintro ⟨herror, hmsgs⟩
    have hfits := fits_of_consumeSse hbuf herror
    use hfits
    right
    rw [← hmsgs, (hreads hfits nofun).2]
    rfl
  · rintro ⟨hfits, hnone⟩
    rw [hnone.resolve_left nofun]
    apply hreads hfits nofun

/-! ### A stream of lines -/

theorem byteLength_append (s t : List Char) :
  byteLength (s ++ t) = byteLength s + byteLength t
  := by
  simp [byteLength, Utf8.encode]

/-- A text does not get longer when it is trimmed. -/
theorem byteLength_trimmed (text : List Char) :
  byteLength (trimmed text) ≤ byteLength text
  := by
  obtain ⟨w, w', -, -, htext⟩ := exists_trimmed text
  have hlen := congrArg byteLength htext
  rw [byteLength_append, byteLength_append] at hlen
  omega

theorem trimmed_append_lf (text : List Char) :
  trimmedEnd (trimmed text ++ ['\n']) = trimmed text
  := by
  rw [trimmedEnd_line]
  simp [trimmedEnd, rdropWhile_singleton, Ecma.isSpace]

/-- The bytes of a line. -/
def StdioLine.bytes (line : StdioLine) : List UInt8 :=
  Utf8.encode line.text

/-- What a line is read as. -/
def lineMessages (line : List UInt8) : List Json :=
  (Json.parse (trimmed (decodeLossy line))).toList

/-- The line is read as what it stands for. -/
def Reads (limit : ℕ) (line : List UInt8) : Prop :=
  ∀ (s : StdioReader) (unread : List UInt8) (lines : List (List UInt8)), line.length ≤ limit →
    s.lines limit unread (line :: lines) =
      { s with messages := s.messages ++ lineMessages line }.lines limit unread lines

theorem lineMessages_bytes (line : StdioLine) :
  lineMessages line.bytes = line.message.toList
  := by
  rw [lineMessages, StdioLine.bytes, decodeLossy_encode]
  rcases line.carries with ⟨hblank, hmsg⟩ | ⟨v, hmsg, hparse⟩
  · rw [hblank, hmsg]
    rfl
  have hread : Json.parse (trimmed line.text) = some v := by
    have hjoined : Json.parse (['\n'].intercalate [line.text]) = some v := by simpa using hparse
    have htrimmed := parse_trimmed hjoined
    rw [flatMap_cons, flatMap_nil, append_nil, trimmed_append_lf] at htrimmed
    exact htrimmed
  rw [hread, hmsg]

/-- A line with a message is read as it. -/
theorem reads_bytes (line : StdioLine) :
  Reads limit line.bytes
  := by
  intro s unread lines hlimit
  have hmsgs := lineMessages_bytes line
  rw [hmsgs, StdioReader.lines]
  rw [lineMessages] at hmsgs
  rw [StdioLine.bytes, decodeLossy_encode] at hmsgs ⊢
  rcases line.carries with ⟨hblank, hmsg⟩ | ⟨v, hmsg, -⟩
  · simp only [if_pos hblank, hmsg, Option.toList_none, append_nil]
  rw [hmsg] at hmsgs
  have hread : Json.parse (trimmed line.text) = some v := by
    cases hparse : Json.parse (trimmed line.text) with
    | none =>
      rw [hparse] at hmsgs
      cases hmsgs
    | some w =>
      rw [hparse] at hmsgs
      rw [(List.cons.inj hmsgs).1]
  have hne : trimmed line.text ≠ [] := by
    intro hnil
    rw [hnil] at hread
    cases hread
  have hsize : ¬ limit < byteLength (trimmed line.text) := by
    apply Nat.not_lt.mpr
    apply (byteLength_trimmed line.text).trans hlimit
  simp only [if_neg hne, if_neg hsize, hread, hmsg, Option.toList_some]

variable {s : StdioReader}

/-- Lines that are read as what they stand for. -/
theorem lines_eq {unread : List UInt8} {lines : List (List UInt8)}
    (hlines : ∀ line ∈ lines, Reads limit line ∧ line.length ≤ limit) :
  s.lines limit unread lines =
    { s with buffer := unread, messages := s.messages ++ lines.flatMap lineMessages }
  := by
  induction lines generalizing s with
  | nil => simp [StdioReader.lines]
  | cons line lines ih =>
    obtain ⟨hreads, hlen⟩ := hlines line mem_cons_self
    rw [hreads s unread lines hlen, ih fun l hl => hlines l (mem_cons_of_mem line hl)]
    simp

/-- A step within the limit. -/
theorem consume_eq {chunk : List UInt8} (hlimit : (s.buffer ++ chunk).length ≤ limit)
    (hlines : ∀ line ∈ pieces [10] (s.buffer ++ chunk), Reads limit line) :
  s.consume limit chunk =
    { s with
      buffer := rest [10] (s.buffer ++ chunk)
      messages := s.messages ++ (pieces [10] (s.buffer ++ chunk)).flatMap lineMessages }
  := by
  rw [StdioReader.consume]
  simp only [if_neg (Nat.not_lt.mpr hlimit)]
  rw [lines_eq]
  · rfl
  intro line hline
  use hlines line hline
  have hle := length_frames hline
  rw [length_nil, Nat.zero_add] at hle
  apply hle.trans hlimit

/-- As long as the buffer is within the limit, lines are read as what they stand for. -/
theorem consumeStdio_fits {past : List UInt8} (hbuf : s.buffer = rest [10] past)
    (hfits : Fits [10] List.length limit past chunks)
    (hlines : ∀ line ∈ pieces [10] (s.buffer ++ chunks.flatten), Reads limit line) :
  (chunks.foldl (StdioReader.consume limit) s).errors = s.errors ∧
    (chunks.foldl (StdioReader.consume limit) s).messages =
      s.messages ++ (pieces [10] (s.buffer ++ chunks.flatten)).flatMap lineMessages
  := by
  induction chunks generalizing past s with
  | nil =>
    use rfl
    rw [flatten_nil, append_nil, hbuf, pieces, frames_of_free]
    · simp
    · apply free_rest (by decide)
  | cons chunk chunks ih =>
  obtain ⟨hlimit, hrest⟩ := hfits
  rw [← hbuf] at hlimit
  have hsplit : pieces [10] (s.buffer ++ (chunk :: chunks).flatten) =
      pieces [10] (s.buffer ++ chunk) ++
        pieces [10] (rest [10] (s.buffer ++ chunk) ++ chunks.flatten) := by
    rw [flatten_cons, ← append_assoc, pieces_append (by decide)]
  have hsame : rest [10] (s.buffer ++ chunk) = rest [10] (past ++ chunk) := by
    rw [rest_append (by decide) past, hbuf]
  rw [hsplit] at hlines ⊢
  rw [foldl_cons, consume_eq hlimit fun line hline => hlines line (mem_append_left _ hline)]
  obtain ⟨herrors, hmsgs⟩ := @ih
    { s with
      buffer := rest [10] (s.buffer ++ chunk)
      messages := s.messages ++ (pieces [10] (s.buffer ++ chunk)).flatMap lineMessages }
    (past ++ chunk) hsame hrest fun line hline => hlines line (mem_append_right _ hline)
  use herrors
  rw [hmsgs, append_assoc, flatMap_append]

/-- Errors are not forgotten. -/
theorem errors_lines {unread : List UInt8} {lines : List (List UInt8)}
    (h : (s.lines limit unread lines).errors = []) :
  s.errors = []
  := by
  induction lines generalizing s with
  | nil => exact h
  | cons line lines ih =>
  rw [StdioReader.lines] at h
  split at h
  · apply ih h
  split at h
  · simp at h
  · split at h
    · apply ih h
    · simp at h

theorem errors_consume {chunk : List UInt8} (h : (s.consume limit chunk).errors = []) :
  s.errors = [] ∧ (s.buffer ++ chunk).length ≤ limit
  := by
  rw [StdioReader.consume] at h
  dsimp only at h
  split at h
  · simp at h
  · rename_i hlimit
    use errors_lines h
    apply Nat.not_lt.mp hlimit

theorem errors_consumes
    (h : (chunks.foldl (StdioReader.consume limit) s).errors = []) :
  s.errors = []
  := by
  induction chunks generalizing s with
  | nil => exact h
  | cons chunk chunks ih => exact (errors_consume (ih h)).1

/-- If nothing fails the buffer was within the limit. -/
theorem fits_of_consumeStdio {past : List UInt8} (hbuf : s.buffer = rest [10] past)
    (hlines : ∀ line ∈ pieces [10] (s.buffer ++ chunks.flatten), Reads limit line)
    (h : (chunks.foldl (StdioReader.consume limit) s).errors = []) :
  Fits [10] List.length limit past chunks
  := by
  induction chunks generalizing past s with
  | nil => trivial
  | cons chunk chunks ih =>
  have hlimit := (errors_consume (errors_consumes h)).2
  have hsplit : pieces [10] (s.buffer ++ (chunk :: chunks).flatten) =
      pieces [10] (s.buffer ++ chunk) ++
        pieces [10] (rest [10] (s.buffer ++ chunk) ++ chunks.flatten) := by
    rw [flatten_cons, ← append_assoc, pieces_append (by decide)]
  have hsame : rest [10] (s.buffer ++ chunk) = rest [10] (past ++ chunk) := by
    rw [rest_append (by decide) past, hbuf]
  rw [hsplit] at hlines
  rw [foldl_cons, consume_eq hlimit fun line hline => hlines line (mem_append_left _ hline)] at h
  rw [Fits, ← hbuf]
  use hlimit
  apply ih _ _ h
  · apply hsame
  · exact fun line hline => hlines line (mem_append_right _ hline)

theorem pieces_stdioBytes (lines : List StdioLine) :
  pieces [10] (stdioBytes lines) = lines.map StdioLine.bytes
  := by
  have hbytes : stdioBytes lines =
      (lines.map StdioLine.bytes).flatMap (fun p => p ++ [10]) ++ [] := by
    rw [append_nil, flatMap_map]
    rfl
  rw [hbytes, pieces, frames_flatMap (by decide)]
  · intro bytes hmem
    obtain ⟨line, -, rfl⟩ := mem_map.mp hmem
    apply sole_singleton
    apply notMem_encode line.unbroken
  · intro hinfix
    exact absurd (eq_nil_of_infix_nil hinfix) (by decide)

/-- The reader of lines hands over the messages if the buffer stays within the limit. -/
theorem consumeStdio_iff {lines : List StdioLine} (hintact : chunks.flatten = stdioBytes lines) :
  (consumeStdio limit chunks).errors = [] ∧
      (consumeStdio limit chunks).messages = lines.filterMap StdioLine.message ↔
    Fits [10] List.length limit [] chunks
  := by
  have hpieces : pieces [10] (StdioReader.start.buffer ++ chunks.flatten) =
      lines.map StdioLine.bytes := by
    rw [hintact]
    apply pieces_stdioBytes
  have hreads : ∀ line ∈ pieces [10] (StdioReader.start.buffer ++ chunks.flatten),
      Reads limit line := by
    rw [hpieces]
    intro bytes hmem
    obtain ⟨line, -, rfl⟩ := mem_map.mp hmem
    apply reads_bytes
  constructor
  · rintro ⟨herrors, -⟩
    apply fits_of_consumeStdio rfl hreads herrors
  intro hfits
  obtain ⟨herrors, hmsgs⟩ := consumeStdio_fits rfl hfits hreads
  use herrors
  rw [consumeStdio, hmsgs, hpieces, flatMap_map, filterMap_eq_flatMap_toList]
  rw [StdioReader.start, nil_append]
  congr 1
  funext line
  apply lineMessages_bytes

/-! ### Both transports -/

/-- A piece that is the bytes of a text without a byte order mark at its start is decoded to it. -/
theorem decodeChunk_encode {text : List Char} (h : text.head? ≠ some '\ufeff') :
  decodeChunk (Utf8.encode text) = text
  := by
  rw [decodeChunk, Utf8.TextDecoder.decode, Utf8.TextDecoder.new]
  dsimp only
  rw [scan_encode]
  have htext : Utf8.lossy (text.map some) = text := by
    rw [Utf8.lossy, map_map]
    apply map_id
  rw [htext, Utf8.TextDecoder.emit]
  cases text with
  | nil => rfl
  | cons c text =>
    have hc : c ≠ '\ufeff' := by simpa using h
    simp [dropMark, hc]

/-- Pieces that are the bytes of texts are decoded as the stream is. -/
theorem intact_of_texts {texts : List (List Char)} (h : ∀ t ∈ texts, t.head? ≠ some '\ufeff') :
  (texts.map Utf8.encode).flatMap decodeChunk = decodeLossy (texts.map Utf8.encode).flatten
  := by
  have hflat : (texts.map Utf8.encode).flatten = Utf8.encode texts.flatten := by
    rw [Utf8.encode, flatMap_def, map_flatten, flatten_flatten, map_map]
    rfl
  rw [hflat, decodeLossy_encode, flatMap_map, ← flatMap_id']
  apply flatMap_congr
  intro text htext
  rw [decodeChunk_encode (h text htext)]

/-- If the pieces of a stream of events are decoded as the stream is, then the reader of events hands
over exactly its messages if and only if the lines end with line feeds, or there are no messages, and
the buffer stays within the limit. The reader of lines does so if and only if its buffer stays
within the limit. -/
theorem transports_deliver_iff (resolveUrl : List Char → Option (List Char)) (limit : ℕ)
    (endpoint : List Char) (lastEventId : Option (List Char))
    {ending : LineEnding} {events : List SseEvent} {pieces : List (List UInt8)}
    (hevents : pieces.flatten = Utf8.encode (sseText ending events))
    (hintact : pieces.flatMap decodeChunk = decodeLossy pieces.flatten)
    {lines : List StdioLine} {chunks : List (List UInt8)}
    (hlines : chunks.flatten = stdioBytes lines) :
  ((consumeSse resolveUrl limit (.start endpoint lastEventId) pieces).error = none ∧
        (consumeSse resolveUrl limit (.start endpoint lastEventId) pieces).messages =
          events.filterMap SseEvent.message ↔
      Fits ['\n', '\n'] byteLength limit [] (pieces.map decodeChunk) ∧
        (ending = .lf ∨ events.filterMap SseEvent.message = [])) ∧
    ((consumeStdio limit chunks).errors = [] ∧
        (consumeStdio limit chunks).messages = lines.filterMap StdioLine.message ↔
      Fits [10] List.length limit [] chunks)
  := by
  rw [hevents, decodeLossy_encode] at hintact
  exact ⟨consumeSse_iff hintact endpoint lastEventId, consumeStdio_iff hlines⟩

/-- An event with a comment and a message in two lines. -/
def sampleEvent : SseEvent where
  lines := [.comment " ok".toList, .data " [".toList, .data "\"é\"]".toList]
  message := some (.arr [.str "é"])
  nonempty := by decide
  unbroken := by
    intro line hline
    fin_cases hline
    all_goals decide
  carries := Or.inr ⟨.arr [.str "é"], rfl, rfl⟩

/-- A line with a message. -/
def sampleLine : StdioLine where
  text := "[1]".toList
  message := some (.arr [.num (Decimal.make 1 0)])
  unbroken := by decide
  carries := Or.inr ⟨.arr [.num (Decimal.make 1 0)], rfl, rfl⟩

/-- Events that are read in two pieces. -/
def wholeReads : List (List UInt8) :=
  [": ok\nda".toList, "ta: [\ndata:\"é\"]\n\n".toList].map Utf8.encode

/-- Lines that are read in two pieces. -/
def lineReads : List (List UInt8) :=
  [Utf8.encode "[1".toList, Utf8.encode "]\n".toList]

theorem transports_deliver_iff_reads :
  (consumeSse some 64 (.start [] none) wholeReads).messages = [.arr [.str "é"]] ∧
    (consumeStdio 64 lineReads).messages = [.arr [.num (Decimal.make 1 0)]]
  := by
  have hintact : wholeReads.flatMap decodeChunk = decodeLossy wholeReads.flatten :=
    intact_of_texts (by decide)
  have hevents : wholeReads.flatten = Utf8.encode (sseText .lf [sampleEvent]) := by decide
  have hlines : lineReads.flatten = stdioBytes [sampleLine] := by decide
  obtain ⟨hsse, hstdio⟩ := transports_deliver_iff some 64 [] none hevents hintact hlines
  exact ⟨(hsse.mpr ⟨by decide, Or.inl rfl⟩).2, (hstdio.mpr (by decide)).2⟩

/-- The event, cut inside of a character. -/
def cutReads : List (List UInt8) :=
  let bytes := Utf8.encode (sseText .lf [sampleEvent])
  [bytes.take 20, bytes.drop 20]

/-- A character that is cut in two comes out as another one, lines that end with a carriage return
and a line feed are not delivered, and two messages that are read together are refused though each
is within the limit. -/
theorem not_delivered :
  (cutReads.flatten = Utf8.encode (sseText .lf [sampleEvent]) ∧
      (consumeSse some 64 (.start [] none) cutReads).messages ≠ [.arr [.str "é"]]) ∧
    (consumeSse some 64 (.start [] none)
        [Utf8.encode (sseText .crlf [sampleEvent])]).messages ≠ [.arr [.str "é"]] ∧
    sampleLine.bytes.length + 1 ≤ 5 ∧
    (consumeStdio 5 [stdioBytes [sampleLine, sampleLine]]).errors = [.tooLarge]
  := by
  refine ⟨⟨by decide, ?_⟩, ?_, by decide, by decide⟩
  · intro h
    have hprinted := congrArg (List.map Json.stringify) h
    revert hprinted
    decide
  intro h
  have hprinted := congrArg List.length h
  revert hprinted
  decide

end McpClient
