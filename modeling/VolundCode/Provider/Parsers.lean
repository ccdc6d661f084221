import VolundCode.Provider.Stream

/-!
# The parsers of the providers

What the parsers of Anthropic, OpenAI and Gemini do with a frame of server-sent events, and that of
Ollama with a line. All four emit the same chunks for any two ways in which a body is read, but for
one slip: the first three end lines with a line feed read by read, and so miss a carriage return
whose line feed comes with the next read (`parsers_agree`, `not_parsers_agree`).
-/

namespace Provider

open Js Json ProviderKit

/-- The text `name` of an event or a field. -/
def named (name : String) : List Char :=
  name.toList

/-- The data of the lines of a frame that have some. -/
def frameData (frame : List Char) : List (List Char) :=
  ((frame.splitOn '\n').filter fun line => (named "data:").isPrefixOf line).map fun line =>
    (line.drop 5).dropWhile Ecma.isSpace

/-- Lines in one text. -/
def joinLines (lines : List (List Char)) : List Char :=
  ['\n'].intercalate lines

/-! ### Anthropic -/

structure StartUsage where
  input : Value
  cacheRead : Value
  cacheWrite : Value

structure AnthropicState where
  stopped : Bool
  toolIds : Table Value
  partialText : String
  startUsage : Option StartUsage

/-- The event of a frame: the last line that names one counts. -/
def frameEvent (frame : List Char) : String :=
  (frame.splitOn '\n').foldl
    (fun event line =>
      if (named "event:").isPrefixOf line then String.ofList (trimmed (line.drop 6)) else event)
    ""

/-- The reason in a `message_stop`. -/
def anthropicStopReason (reason : Value) : StopReason :=
  if isText reason "tool_use" then .toolUse
  else if isText reason "max_tokens" then .maxTokens
  else if isText reason "stop_sequence" then .stopSequence
  else .endTurn

/-- The usage in a `message_delta`, with what the start of the message has said of the input. -/
def anthropicUsage (usage : Value) (start : Option StartUsage) : StreamChunk :=
  .usage
    (orElse (maybe usage "input_tokens") (orElse (start.bind StartUsage.input) (number 0)))
    (some (orElse (maybe usage "output_tokens") (number 0)))
    ((maybe usage "cache_read_input_tokens").or (start.bind StartUsage.cacheRead))
    ((maybe usage "cache_creation_input_tokens").or (start.bind StartUsage.cacheWrite))

/-- The chunk of a `content_block_delta`. -/
def anthropicDelta (value : Value) : Except Thrown (List StreamChunk) := do
  let delta ← field value "delta"
  let type := maybe delta "type"
  if isText type "text_delta" then return [.textDelta (orElse (maybe delta "text") emptyText)]
  else if isText type "thinking_delta" then
    let signature := maybe delta "signature"
    return [.thinkingDelta (orElse (maybe delta "thinking") emptyText)
      (if truthy signature then signature else none)]
  else if isText type "input_json_delta" then
    let id ← valueText (maybe value "index")
    return [.toolUseDelta (some (.str id)) (orElse (maybe delta "partial_json") emptyText)]
  else return []

/-- `normalize`. -/
def normalize (event : String) (body : Json) (start : Option StartUsage) :
    Except Thrown (List StreamChunk) := do
  let value : Value := some body
  if event = "message_start" then
    let message ← field value "message"
    return [.messageStart (orElse (maybe message "id") emptyText)]
  else if event = "content_block_start" then
    let block ← field value "content_block"
    if isText (maybe block "type") "tool_use" then
      return [.toolUseStart (maybe block "id") (maybe block "name")]
    else return []
  else if event = "content_block_delta" then anthropicDelta value
  else if event = "content_block_stop" then
    let id ← valueText (← field value "index")
    return [.toolUseEnd (some (.str id))]
  else if event = "message_delta" then
    let usage ← field value "usage"
    if truthy usage then return [anthropicUsage usage start] else return []
  else if event = "message_stop" then
    let reason ← field value "stop_reason"
    return [.messageStop (anthropicStopReason reason)]
  else if event = "error" then return [.error (some (number 500)) body]
  else return []

/-- The id that a tool use has had at its start. -/
def knownId (toolIds : Table Value) (index id : Value) : Value :=
  match toolIds.get index with
  | some known => known
  | none => id

/-- A chunk with the id of its tool use. -/
def withId (toolIds : Table Value) (index : Value) : StreamChunk → StreamChunk
  | .toolUseDelta id fragment => .toolUseDelta (knownId toolIds index id) fragment
  | .toolUseEnd id => .toolUseEnd (knownId toolIds index id)
  | chunk => chunk

/-- What the parser of Anthropic remembers of a chunk. -/
def AnthropicState.note (s : AnthropicState) : StreamChunk → Except Thrown AnthropicState
  | .textDelta text => do return { s with partialText := s.partialText ++ (← valueText text) }
  | .messageStop _ => .ok { s with stopped := true }
  | .error _ _ => .ok { s with stopped := true }
  | _ => .ok s

/-- One chunk of a frame. -/
def anthropicChunk (index : Value) (chunk : StreamChunk) : Handler AnthropicState Unit := do
  let s ← known
  let mapped := withId s.toolIds index chunk
  let s ← checked (s.note mapped)
  learn fun _ => s
  emit mapped

/-- The id of a tool use that starts. -/
def anthropicTool (value : Value) : Handler AnthropicState Unit := do
  let block ← checked (field value "content_block")
  if isText (maybe block "type") "tool_use" then
    learn fun s => { s with toolIds := s.toolIds.set (maybe value "index") (maybe block "id") }

/-- What the start of a message says of its usage. -/
def anthropicStart (value : Value) : Handler AnthropicState Unit := do
  let message ← checked (field value "message")
  let usage := maybe message "usage"
  if truthy usage then
    learn fun s =>
      { s with
        startUsage := some
          { input := maybe usage "input_tokens"
            cacheRead := maybe usage "cache_read_input_tokens"
            cacheWrite := maybe usage "cache_creation_input_tokens" } }

/-- One frame of `parseAnthropicSse`. -/
def anthropicFrame (frame : List Char) : Handler AnthropicState Unit := do
  let event := frameEvent frame
  let data := frameData frame
  if event = "" ∨ data = [] then return
  let body ← checked (parseText (joinLines data))
  let value : Value := some body
  if event = "content_block_start" then anthropicTool value
  if event = "message_start" then anthropicStart value
  let s ← known
  let chunks ← checked (normalize event body s.startUsage)
  chunks.forM (anthropicChunk (maybe value "index"))

def anthropicParser : StreamParser AnthropicState where
  normalise := crlf
  separator := ['\n', '\n']
  initial := { stopped := false, toolIds := [], partialText := "", startUsage := none }
  frame := anthropicFrame
  stopped := AnthropicState.stopped
  partialText := AnthropicState.partialText
  toolUseIds s := s.toolIds.map Prod.snd
  incomplete := "incomplete_sse_frame"

def parseAnthropicSse (reads : List (List UInt8)) : List StreamChunk :=
  anthropicParser.parse reads

/-! ### OpenAI -/

structure OpenAITool where
  id : Json
  name : Json

structure OpenAIState where
  tools : Table OpenAITool
  partialText : String
  started : Bool
  stopped : Bool
  pendingStop : Option StopReason

/-- `finishReason`. -/
def finishReason (value : Value) : StopReason :=
  if isText value "tool_calls" ∨ isText value "function_call" then .toolUse
  else if isText value "length" then .maxTokens
  else if isText value "content_filter" then .error
  else .endTurn

/-- A fragment of a tool call. -/
def openAICall (call : Json) : Handler OpenAIState Unit := do
  let index ← checked (field (some call) "index")
  let key : Value := some (orElse index (number 0))
  let id := maybe (some call) "id"
  let function := maybe (some call) "function"
  let s ← known
  if (s.tools.get key).isNone ∧ truthy id then
    let tool : OpenAITool :=
      { id := orElse id .null, name := orElse (maybe function "name") emptyText }
    learn fun s => { s with tools := s.tools.set key tool }
    emit (.toolUseStart (some tool.id) (some tool.name))
  let s ← known
  let fragment := maybe function "arguments"
  match s.tools.get key with
  | some tool => if truthy fragment then emit (.toolUseDelta (some tool.id) fragment)
  | none => return

/-- The text of a delta. -/
def openAIContent (content : Value) : Handler OpenAIState Unit := do
  match content with
  | some (.str text) =>
    if text ≠ "" then
      learn fun s => { s with partialText := s.partialText ++ text }
      emit (.textDelta content)
  | _ => pure ()

/-- The start of a message. -/
def openAIStart (id : Value) : Handler OpenAIState Unit := do
  let s ← known
  if !s.started && truthy id then
    emit (.messageStart id)
    learn fun s => { s with started := true }

/-- `[DONE]`. -/
def openAIDone : Handler OpenAIState Unit := do
  let s ← known
  s.tools.forM fun tool => emit (.toolUseEnd (some tool.2.id))
  match s.pendingStop with
  | some reason => emit (.messageStop reason)
  | none => pure ()
  learn fun s => { s with stopped := true }

/-- A part of a completion. -/
def openAIChunk (value : Value) : Handler OpenAIState Unit := do
  openAIStart (maybe value "id")
  let choice := firstElement (maybe value "choices")
  let delta := maybe choice "delta"
  openAIContent (maybe delta "content")
  let calls ← checked (elements (orElse (maybe delta "tool_calls") (.arr [])))
  calls.forM openAICall
  let usage := maybe value "usage"
  if truthy usage then
    emit
      (.usage (some (orElse (maybe usage "prompt_tokens") (number 0)))
        (some (orElse (maybe usage "completion_tokens") (number 0)))
        (maybe (maybe usage "prompt_tokens_details") "cached_tokens") none)
  let reason := maybe choice "finish_reason"
  if truthy reason then learn fun s => { s with pendingStop := some (finishReason reason) }

/-- One frame of `parseOpenAISse`. -/
def openAIFrame (frame : List Char) : Handler OpenAIState Unit := do
  let data := joinLines (frameData frame)
  if data = [] then return
  if data = named "[DONE]" then openAIDone
  else
    let body ← checked (parseText data)
    let value : Value := some body
    let error ← checked (field value "error")
    if truthy error then
      emit (.error (orElse (maybe value "status") (number 500)) body)
      learn fun s => { s with stopped := true }
    else openAIChunk value

def openAIParser : StreamParser OpenAIState where
  normalise := crlf
  separator := ['\n', '\n']
  initial :=
    { tools := [], partialText := "", started := false, stopped := false, pendingStop := none }
  frame := openAIFrame
  stopped := OpenAIState.stopped
  partialText := OpenAIState.partialText
  toolUseIds s := s.tools.map fun tool => some tool.2.id
  incomplete := "incomplete_sse_frame"

def parseOpenAISse (reads : List (List UInt8)) : List StreamChunk :=
  openAIParser.parse reads

/-! ### Gemini -/

structure GeminiState where
  partialText : String
  started : Bool
  stopped : Bool
  toolIndex : ℕ
  activeToolIds : List Value

/-- `stopReason`. -/
def geminiStopReason (reason : Value) : StopReason :=
  if isText reason "MAX_TOKENS" then .maxTokens
  else if isText reason "SAFETY" ∨ isText reason "RECITATION" ∨
      isText reason "PROHIBITED_CONTENT" then .error
  else .endTurn

/-- A tool use that comes as a whole. -/
def wholeToolUse {σ : Type} (id name : Value) (arguments : Value) : Handler σ Unit := do
  emit (.toolUseStart id name)
  emit (.toolUseDelta id
    (some (.str (String.ofList (Json.stringify (orElse arguments (.obj [])))))))
  emit (.toolUseEnd id)

/-- The call of a part. -/
def geminiCall (call : Value) : Handler GeminiState Unit := do
  let s ← known
  let id ←
    match maybe call "id" with
    | none | some .null => do
      learn fun s => { s with toolIndex := s.toolIndex + 1 }
      pure (Json.str ("gemini-call-" ++ toString s.toolIndex))
    | some id => pure id
  learn fun s => { s with activeToolIds := s.activeToolIds ++ [some id] }
  wholeToolUse (some id) (some (orElse (maybe call "name") emptyText)) (maybe call "args")

/-- A part of the content. -/
def geminiPart (part : Json) : Handler GeminiState Unit := do
  let text ← checked (field (some part) "text")
  match text with
  | some (.str t) =>
    if t ≠ "" then
      learn fun s => { s with partialText := s.partialText ++ t }
      emit (.textDelta text)
  | _ => pure ()
  let call := maybe (some part) "functionCall"
  if truthy call then geminiCall call

/-- One frame of `parseGeminiSse`. The id of a message without one is `newId`. -/
def geminiFrame (newId : Json) (frame : List Char) : Handler GeminiState Unit := do
  let data := joinLines (frameData frame)
  if data = [] then return
  let body ← checked (parseText data)
  let value : Value := some body
  let error ← checked (field value "error")
  if truthy error then
    emit (.error (orElse (maybe error "code") (number 500)) body)
    learn fun s => { s with stopped := true }
  else
    let s ← known
    if !s.started then
      emit (.messageStart (orElse (maybe value "responseId") newId))
      learn fun s => { s with started := true }
    let candidate := firstElement (maybe value "candidates")
    let parts ← checked (elements (orElse (maybe (maybe candidate "content") "parts") (.arr [])))
    parts.forM geminiPart
    let usage := maybe value "usageMetadata"
    if truthy usage then
      emit
        (.usage (some (orElse (maybe usage "promptTokenCount") (number 0)))
          (some (orElse (maybe usage "candidatesTokenCount") (number 0)))
          (maybe usage "cachedContentTokenCount") none)
    let reason := maybe candidate "finishReason"
    if truthy reason then
      emit (.messageStop (geminiStopReason reason))
      learn fun s => { s with stopped := true }

def geminiParser (newId : Json) : StreamParser GeminiState where
  normalise := crlf
  separator := ['\n', '\n']
  initial :=
    { partialText := "", started := false, stopped := false, toolIndex := 0, activeToolIds := [] }
  frame := geminiFrame newId
  stopped := GeminiState.stopped
  partialText := GeminiState.partialText
  toolUseIds := GeminiState.activeToolIds
  incomplete := "incomplete_sse_frame"

def parseGeminiSse (newId : Json) (reads : List (List UInt8)) : List StreamChunk :=
  (geminiParser newId).parse reads

/-! ### Ollama -/

structure OllamaState where
  started : Bool
  stopped : Bool
  partialText : String
  toolIds : List Value

/-- A tool call and its index. -/
def ollamaCall (entry : Json × ℕ) : Handler OllamaState Unit := do
  let given ← checked (field (some entry.1) "id")
  let id := orElse given (.str ("tool-" ++ toString entry.2))
  let function := maybe (some entry.1) "function"
  learn fun s => { s with toolIds := s.toolIds ++ [some id] }
  wholeToolUse (some id) (some (orElse (maybe function "name") emptyText))
    (maybe function "arguments")

/-- The tool calls of a message: only an array has `entries`. -/
def ollamaCalls (calls : Json) : Except Thrown (List (Json × ℕ)) :=
  match calls with
  | .arr xs => .ok xs.zipIdx
  | _ => .error (.typeError "entries")

/-- The end of a message. -/
def ollamaDone (value : Value) : Handler OllamaState Unit := do
  emit
    (.usage (some (orElse (maybe value "prompt_eval_count") (number 0)))
      (some (orElse (maybe value "eval_count") (number 0))) none none)
  let s ← known
  emit
    (.messageStop
      (if s.toolIds ≠ [] then .toolUse
      else if isText (maybe value "done_reason") "length" then .maxTokens
      else .endTurn))
  learn fun s => { s with stopped := true }

/-- One line of `parseOllamaNdjson`. The id of a message without one is `newId`. -/
def ollamaLine (newId : Json) (frame : List Char) : Handler OllamaState Unit := do
  let line := trimmed frame
  if line = [] then return
  let body ← checked (parseText line)
  let value : Value := some body
  let error ← checked (field value "error")
  if truthy error then
    emit (.error (orElse (maybe value "status") (number 500)) body)
    learn fun s => { s with stopped := true }
  else
    let s ← known
    if !s.started then
      emit (.messageStart (orElse (maybe value "id") newId))
      learn fun s => { s with started := true }
    let message := maybe value "message"
    match maybe message "content" with
    | some (.str text) =>
      if text ≠ "" then
        learn fun s => { s with partialText := s.partialText ++ text }
        emit (.textDelta (some (.str text)))
    | _ => pure ()
    let calls ← checked (ollamaCalls (orElse (maybe message "tool_calls") (.arr [])))
    calls.forM ollamaCall
    if truthy (maybe value "done") then ollamaDone value

def ollamaParser (newId : Json) : StreamParser OllamaState where
  normalise text := text
  separator := ['\n']
  initial := { started := false, stopped := false, partialText := "", toolIds := [] }
  frame := ollamaLine newId
  stopped := OllamaState.stopped
  partialText := OllamaState.partialText
  toolUseIds := OllamaState.toolIds
  incomplete := "incomplete_ndjson_frame"

def parseOllamaNdjson (newId : Json) (reads : List (List UInt8)) : List StreamChunk :=
  (ollamaParser newId).parse reads

/-! ### The pieces of a body -/

/-- For any two ways to read a body the parsers emit the same chunks, those of server-sent events if
no read ends between a carriage return and its line feed. -/
theorem parsers_agree (newId : Json) {as bs : List (List UInt8)} (hbytes : as.flatten = bs.flatten) :
  (Unsplit as → Unsplit bs →
      parseAnthropicSse as = parseAnthropicSse bs ∧ parseOpenAISse as = parseOpenAISse bs ∧
        parseGeminiSse newId as = parseGeminiSse newId bs) ∧
    parseOllamaNdjson newId as = parseOllamaNdjson newId bs
  := by
  have hpair : (['\n', '\n'] : List Char) ≠ [] := by decide
  constructor
  · intro has hbs
    refine ⟨?_, ?_, ?_⟩
    all_goals apply parse_eq_of_unsplit hpair rfl hbytes has hbs
  · apply parse_eq_of_id (List.cons_ne_nil _ _) rfl hbytes

/-- An event that is cut inside of a character. -/
def cutCharacter : List (List UInt8) :=
  let bytes := Utf8.encode "data: \x7b\"id\":\"é\"\x7d\n\n".toList
  [bytes.take 14, bytes.drop 14]

theorem parsers_agree_cutCharacter :
  parseAnthropicSse [cutCharacter.flatten] = parseAnthropicSse cutCharacter ∧
    parseOllamaNdjson .null [cutCharacter.flatten] = parseOllamaNdjson .null cutCharacter
  := by
  have hbytes : [cutCharacter.flatten].flatten = cutCharacter.flatten := by
    rw [List.flatten_singleton]
  have hplain : '\r' ∉ (Utf8.TextDecoder.new.decode cutCharacter.flatten).1 := by decide
  obtain ⟨hevents, hlines⟩ := parsers_agree .null hbytes
  have hwhole : Unsplit [cutCharacter.flatten] := by
    apply unsplit_of_notMem
    rw [hbytes]
    apply hplain
  exact ⟨(hevents hwhole (unsplit_of_notMem hplain)).1, hlines⟩

/-- Whether the chunk says that the stream was interrupted. -/
def StreamChunk.interrupts : StreamChunk → Bool
  | .messageInterrupted _ _ _ => true
  | _ => false

/-- A body, and the body read in two pieces, the second of which is its last byte. -/
def wholeAndCut (body : String) : List (List UInt8) × List (List UInt8) :=
  let bytes := Utf8.encode body.toList
  ([bytes], [bytes.dropLast, bytes.drop (bytes.length - 1)])

/-- The parser emits other chunks when the last byte of the body comes on its own. -/
def Differs (parse : List (List UInt8) → List StreamChunk) (body : String) : Prop :=
  (wholeAndCut body).1.flatten = (wholeAndCut body).2.flatten ∧
    parse (wholeAndCut body).1 ≠ parse (wholeAndCut body).2

/-- An event whose last line feed comes on its own is not seen. -/
theorem not_parsers_agree :
  Differs parseAnthropicSse "event: error\r\ndata: \x7b\x7d\r\n\r\n" ∧
    Differs parseOpenAISse "data: [DONE]\r\n\r\n" ∧
    Differs (parseGeminiSse .null) "data: \x7b\"error\":\x7b\x7d\x7d\r\n\r\n"
  := by
  have hdiffers : ∀ {as bs : List StreamChunk},
      as.any StreamChunk.interrupts ≠ bs.any StreamChunk.interrupts → as ≠ bs := by
    rintro as bs hany rfl
    apply hany rfl
  refine ⟨⟨by decide, hdiffers ?_⟩, ⟨by decide, hdiffers ?_⟩, by decide, hdiffers ?_⟩
  all_goals decide +kernel

end Provider
