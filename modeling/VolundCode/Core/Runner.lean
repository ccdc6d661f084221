import VolundCode.Core.Events
import VolundCode.Lib.Ecma
import VolundCode.Lib.Effect
import VolundCode.Lib.Run

/-!
# The runner

`Runner.run` takes a message of the user through model calls and tool calls to the end of the
turn. It is cut here at its awaits on what it does not decide: the router, the provider's
stream, the tools and the clock. What these answer is in the actions, an interrupt can come
before any of them, and the code between two awaits is one step. An error thrown in a step goes
where the source catches it, with everything written before it left as written.
-/

namespace Core

open ProviderKit Run

/-! ### What the runner works on -/

/-- A provider: the handle is the identity of the client. -/
structure ProviderClient where
  handle : ℕ
  name : String
  deriving DecidableEq

/-- The provider and model a router chose. -/
structure RouterDecision where
  provider : ProviderClient
  model : String
  reason : String

inductive ProviderChunk where
  | messageStart (messageId : String)
  | textDelta (text : String)
  | thinkingDelta (text : String)
  | toolUseStart (id name : String)
  | toolUseDelta (id argsFragment : String)
  | toolUseEnd (id : String)
  | usage (usage : Usage)
  | messageStop (stopReason : StopReason)
  | messageInterrupted (reason : String)
  | error (message : String)

/-- What a tool answers. -/
structure ToolExecution where
  toolUseId : String
  toolName : Option String
  content : List ContentPart
  isError : Option Bool
  durationMs : Option ℚ
  linesAdded : Option ℚ
  linesRemoved : Option ℚ

/-- What a tool answers, and when. -/
structure Settled where
  execution : ToolExecution
  finishedAt : ℤ

/-- A tool use of an assistant message. -/
structure ToolUse where
  id : String
  name : String
  input : Json

/-- A tool use whose arguments are being streamed. -/
structure AggregatingToolUse where
  id : String
  name : String
  fragments : List String
  raw : Option String
  input : Option Json
  ended : Bool

/-- A message that is being streamed, with its tool uses in the order they started. -/
structure InProgress where
  text : String
  thinking : String
  tools : List AggregatingToolUse
  invalidTools : List String
  usage : Option Usage
  stopReason : Option StopReason

/-- The message at the start of its stream. -/
def InProgress.empty : InProgress where
  text := ""
  thinking := ""
  tools := []
  invalidTools := []
  usage := none
  stopReason := none

/-- What a context policy answers. -/
structure Compaction where
  messages : List Message
  beforeTokens : ℚ
  afterTokens : ℚ
  strategy : Option String
  compactedMessageIds : Option (List String)

structure RunnerOptions where
  maxToolLoopsPerTurn : ℕ
  budget : Option Budget
  taskRun : Option TaskRun

/-- The options a runner has unless it is given others. -/
def RunnerOptions.default : RunnerOptions where
  maxToolLoopsPerTurn := 25
  budget := none
  taskRun := none

/-- What the runner takes from packages outside the repository: the ids, numbered as they are
drawn, and the words in which the schemas say what a payload violates. -/
structure Externals where
  uuidv7 : ℕ → String
  violation : Payload → String

/-! ### Streams -/

/-- The first tool use with the id is changed. -/
def changeTool (id : String) (f : AggregatingToolUse → AggregatingToolUse) :
    List AggregatingToolUse → List AggregatingToolUse
  | [] => []
  | tool :: tools => if tool.id = id then f tool :: tools else tool :: changeTool id f tools

/-- The arguments of a tool use in one text. -/
def AggregatingToolUse.joined (tool : AggregatingToolUse) : String :=
  String.join tool.fragments

/-- The tool use with its arguments parsed, unless they were already. -/
def AggregatingToolUse.finalize (tool : AggregatingToolUse) : AggregatingToolUse :=
  if tool.ended then tool
  else
    { tool with
      ended := true
      raw := some tool.joined
      input := Json.parse tool.joined.toList }

/-- The arguments of the tool use do not parse. -/
def AggregatingToolUse.invalid (tool : AggregatingToolUse) : Bool :=
  !tool.ended && (Json.parse tool.joined.toList).isNone

/-- `endToolUse`: the arguments are parsed once, and a tool use whose arguments do not parse is
marked. -/
def endToolUse (current : InProgress) (id : String) : InProgress :=
  match current.tools.find? fun tool => tool.id = id with
  | none => current
  | some tool =>
    { current with
      tools := changeTool id AggregatingToolUse.finalize current.tools
      invalidTools :=
        if tool.invalid then current.invalidTools ++ [id] else current.invalidTools }

/-- A tool use starts, in the place of an earlier one with its id if there is one. -/
def startTool (id name : String) (tools : List AggregatingToolUse) : List AggregatingToolUse :=
  let tool : AggregatingToolUse :=
    { id := id, name := name, fragments := [], raw := none, input := none, ended := false }
  if tools.any fun t => t.id = id then changeTool id (fun _ => tool) tools else tools ++ [tool]

/-- `merge`: what a chunk adds to the message. -/
def merge (current : InProgress) : ProviderChunk → InProgress
  | .textDelta text => { current with text := current.text ++ text }
  | .thinkingDelta text => { current with thinking := current.thinking ++ text }
  | .toolUseStart id name => { current with tools := startTool id name current.tools }
  | .toolUseDelta id argsFragment =>
    { current with
      tools := changeTool id (fun tool => { tool with fragments := tool.fragments ++ [argsFragment] })
        current.tools }
  | .toolUseEnd id => endToolUse current id
  | .usage usage => { current with usage := some usage }
  | .messageStop stopReason => { current with stopReason := some stopReason }
  | .messageStart _ => current
  | .messageInterrupted _ => current
  | .error _ => current

/-- `deltaFragment`: the increment a chunk brings. -/
def deltaFragment : ProviderChunk → Option (DeltaKind × String)
  | .textDelta text => some (.text, text)
  | .thinkingDelta text => some (.thinking, text)
  | .toolUseDelta _ argsFragment => some (.toolUse, argsFragment)
  | _ => none

/-- Every tool use is ended. -/
def endAll (current : InProgress) : InProgress :=
  current.tools.foldl (fun c tool => endToolUse c tool.id) current

/-- The tool use of the message that a tool use of the stream becomes. -/
def AggregatingToolUse.toToolUse (tool : AggregatingToolUse) : ToolUse where
  id := tool.id
  name := tool.name
  input := tool.input.getD (.obj [("parseError", .bool true), ("raw", .str (tool.raw.getD ""))])

/-- The tool use as a part of a message. -/
def ToolUse.part (tool : ToolUse) : ContentPart :=
  .toolUse tool.id tool.name tool.input

/-- The tool uses of the message. -/
def toolUsesOf (current : InProgress) : List ToolUse :=
  (endAll current).tools.map AggregatingToolUse.toToolUse

/-- `finish`: the message, once its stream has ended. -/
def finish (current : InProgress) (decision : RouterDecision) (messageId : String) (now : ℤ) :
    Message where
  id := messageId
  role := .assistant
  content :=
    (if current.thinking = "" then [] else [.thinking current.thinking none]) ++
      (if current.text = "" then [] else [.text current.text]) ++
      (toolUsesOf current).map ToolUse.part
  createdAt := now
  info :=
    { Meta.empty with
      provider := some decision.provider.name
      model := some decision.model
      usage := current.usage
      stopReason := current.stopReason }

/-! ### Tool results -/

/-- Text as it stands between the tags of a wrapper. -/
def escape (text : String) : String :=
  Ecma.replaceAll (Ecma.replaceAll (Ecma.replaceAll text '&' "&amp;") '<' "&lt;") '>' "&gt;"

/-- A whole number in JSON. -/
def jsonNat (n : ℕ) : Json :=
  .num (Decimal.make n 0)

/-- An attachment in JSON. -/
def AttachmentRef.toJson : AttachmentRef → Json
  | .inline bytes =>
    .obj [("kind", .str "inline"),
      ("bytes", .obj (bytes.zipIdx.map fun b => (toString b.2, jsonNat b.1.toNat)))]
  | .path absPath => .obj [("kind", .str "path"), ("absPath", .str absPath)]
  | .handle handle => .obj [("kind", .str "handle"), ("handle", .str handle)]

mutual

/-- A part of a message in JSON. -/
def partToJson : ContentPart → Json
  | .text text => .obj [("type", .str "text"), ("text", .str text)]
  | .thinking text signature =>
    .obj ([("type", .str "thinking"), ("text", .str text)] ++
      signature.toList.map fun s => ("signature", .str s))
  | .image source mime =>
    .obj [("type", .str "image"), ("source", AttachmentRef.toJson source), ("mime", .str mime)]
  | .file source mime filename =>
    .obj [("type", .str "file"), ("source", AttachmentRef.toJson source), ("mime", .str mime),
      ("filename", .str filename)]
  | .toolUse id name input =>
    .obj [("type", .str "tool_use"), ("id", .str id), ("name", .str name), ("input", input)]
  | .toolResult toolUseId content isError =>
    .obj ([("type", .str "tool_result"), ("toolUseId", .str toolUseId),
      ("content", .arr (partsToJson content))] ++ isError.toList.map fun b => ("isError", .bool b))

/-- The parts of a message in JSON. -/
def partsToJson : List ContentPart → List Json
  | [] => []
  | part :: parts => partToJson part :: partsToJson parts

end

/-- The text of a part in a wrapper. -/
def wrappedText : ContentPart → String
  | .text text => text
  | part => String.ofList (partToJson part).stringify

/-- `wrapUntrusted`: the content of a tool result, marked with where it comes from. -/
def wrapUntrusted (parts : List ContentPart) (source : String) (toolUseId : Option String) :
    List ContentPart :=
  let body := String.intercalate "\n" (parts.map wrappedText)
  let id :=
    match toolUseId with
    | some toolUseId => if toolUseId = "" then "" else " toolUseId=\"" ++ escape toolUseId ++ "\""
    | none => ""
  [.text ("<untrusted source=\"" ++ escape source ++ "\"" ++ id ++ ">\n" ++ escape body ++
    "\n</untrusted>")]

/-- The result of a tool use whose arguments did not parse. -/
def invalidExecution (tool : ToolUse) (raw : String) : ToolExecution where
  toolUseId := tool.id
  toolName := some tool.name
  content :=
    [.text ("Invalid JSON arguments for tool " ++ tool.name ++ " (stream truncated?): " ++
      Ecma.sliceTo raw 200 ++ "...")]
  isError := some true
  durationMs := none
  linesAdded := none
  linesRemoved := none

/-- The content of the message that answers a tool use. -/
def resultContent (result : ToolExecution) : List ContentPart :=
  [.toolResult result.toolUseId
    (wrapUntrusted result.content ("tool:" ++ result.toolName.getD "unknown")
      (some result.toolUseId))
    result.isError]

/-- The name a completed tool is reported under. -/
def toolNameOf (toolUses : List ToolUse) (result : ToolExecution) : String :=
  match toolUses.find? fun tool => tool.id = result.toolUseId with
  | some tool => tool.name
  | none => result.toolName.getD "unknown"

/-- The event of a completed tool. -/
def completedPayload (toolUses : List ToolUse) (result : ToolExecution) : Payload :=
  .toolCompleted result.toolUseId (toolNameOf toolUses result) (result.isError.getD false)
    result.durationMs result.linesAdded result.linesRemoved

/-- What a tool use answers: one whose arguments did not parse is not executed. -/
def settleOne (current : InProgress) (startedAt : ℤ) (outcome : String → Except String Settled)
    (tool : ToolUse) : Except String ToolExecution :=
  if current.invalidTools.contains tool.id then
    let raw := (current.tools.find? fun t => t.id = tool.id).bind AggregatingToolUse.raw
    .ok (invalidExecution tool (raw.getD ""))
  else
    match outcome tool.id with
    | .ok settled =>
      .ok { settled.execution with durationMs := some (settled.finishedAt - startedAt : ℤ) }
    | .error e => .error e

/-- What the tool uses answer: `Promise.all` fails if one of them does. -/
def settleAll (current : InProgress) (startedAt : ℤ) (outcome : String → Except String Settled) :
    List ToolUse → Except String (List ToolExecution)
  | [] => .ok []
  | tool :: tools =>
    match settleOne current startedAt outcome tool with
    | .error e => .error e
    | .ok result =>
      match settleAll current startedAt outcome tools with
      | .error e => .error e
      | .ok results => .ok (result :: results)

/-! ### The state -/

/-- The variables of `run` that live as long as the turn. -/
structure Locals where
  turnId : String
  sticky : Option ProviderClient
  decision : Option RouterDecision
  retryDecision : Option RouterDecision
  attempts : ℕ
  loops : ℕ
  toolCalls : ℕ
  failed : Bool
  abortReason : Option AbortReason
  turnUsage : Spending
  lastStopReason : Option StopReason
  turnStartedAt : ℤ

/-- The variables at the start of a turn. -/
def Locals.start (turnId : String) (now : ℤ) : Locals where
  turnId := turnId
  sticky := none
  decision := none
  retryDecision := none
  attempts := 0
  loops := 0
  toolCalls := 0
  failed := false
  abortReason := none
  turnUsage := 0
  lastStopReason := none
  turnStartedAt := now

/-- Where the runner waits: for a call of `run`, at the head of the loop, for a chunk of a
stream, for the tools, or past the loop. -/
inductive Phase where
  | idle
  | looping
  | streaming (messageId : String) (decision : RouterDecision) (current : InProgress)
  | executing (toolUses : List ToolUse) (startedAt : ℤ) (current : InProgress)
  | closing

/-- A runner, with the signal of its turn, the events it emitted and the number of ids it
drew. -/
structure Runner where
  state : SessionState
  aborted : Bool
  locals : Locals
  events : List CoreEvent
  drawn : ℕ
  phase : Phase

/-- A runner that has not run. -/
def Runner.new (state : SessionState) : Runner where
  state := state
  aborted := false
  locals := Locals.start "" 0
  events := []
  drawn := 0
  phase := .idle

/-- The code of the runner between two awaits. -/
abbrev Code (α : Type) : Type := Effect String Runner α

section Code

variable (env : Externals) (options : RunnerOptions)

/-- `uuidv7()`. -/
def drawId : Code String := do
  let r ← get
  set { r with drawn := r.drawn + 1 }
  return env.uuidv7 r.drawn

/-- Changes the session. -/
def update (recipe : SessionState → SessionState) : Code Unit :=
  modify fun r => { r with state := updateSession r.state recipe }

/-- Changes the variables of the turn. -/
def setLocals (f : Locals → Locals) : Code Unit :=
  modify fun r => { r with locals := f r.locals }

/-- The runner once the event is on the bus. -/
def Runner.record (r : Runner) (now : ℤ) (payload : Payload) : Runner :=
  { r with
    drawn := r.drawn + 1
    events := r.events ++
      [{ id := env.uuidv7 r.drawn
         version := r.state.version
         sessionId := r.state.id
         turnId := some r.locals.turnId
         parentTurnId := none
         parentDepth := none
         payload := payload
         time := now }] }

/-- `emit`: an event whose payload breaks its contract is thrown back. -/
def emit (now : ℤ) (payload : Payload) : Code Unit := do
  let r ← get
  if payload.conforms then set (r.record env now payload)
  else throw (env.violation payload)

/-- `message`: a new message. -/
def newMessage (role : Role) (content : List ContentPart) (now : ℤ) : Code Message := do
  let id ← drawId env
  return { id := id, role := role, content := content, createdAt := now, info := Meta.empty }

/-- `append`: the message joins the conversation. -/
def append (m : Message) : Code Unit :=
  update fun s => { s with messages := s.messages ++ [m] }

/-- The event of a message. -/
def appendedPayload (m : Message) : Payload :=
  .messageAppended m.id m.role (toEventContent m.content)

/-- An optional text that an event carries only if it is not empty. -/
def truthy (s : Option String) : Option String :=
  s.filter (· ≠ "")

/-- A turn is opened for the message of the user. -/
def openTurn (input : List ContentPart) (now : ℤ) : Code Message := do
  let turnId ← drawId env
  modify fun r => { r with aborted := false, locals := Locals.start turnId now }
  let user ← newMessage env .user input now
  update fun s =>
    { s with
      pendingInterrupt := false
      activeTurn := some turnId
      turns := s.turns ++
        [{ id := turnId
           startMessageId := user.id
           status := .streaming
           parentDepth := s.lineage.depth
           parentTurnId := truthy s.lineage.parentTurnId
           agentType := truthy s.lineage.agentType }] }
  return user

/-- The event of the start of a turn. -/
def startedPayload (r : Runner) : Payload :=
  .turnStarted r.locals.turnId (truthy r.state.lineage.parentTurnId)
    (truthy r.state.lineage.agentType)

/-- The start of a turn, up to its loop. -/
def beginTurn (input : List ContentPart) (now : ℤ) : Code Phase := do
  let user ← openTurn env input now
  let r ← get
  emit env now (startedPayload r)
  options.taskRun.toList.forM fun task => emit env now (.taskStarted task)
  append user
  emit env now (appendedPayload user)
  return .looping

/-- `exhaustedBudget`: the first dimension of the budget that is used up. -/
def exhaustedBudget (state : SessionState) (elapsed : ℤ) (toolCalls : ℕ) :
    Option BudgetDimension :=
  match options.budget <|> state.resourceBudget with
  | none => none
  | some budget =>
    if budget.tokenMax.any (· ≤ state.cumulativeUsage.input + state.cumulativeUsage.output) then
      some .token
    else if budget.costUSDMax.any (· ≤ state.cumulativeUsage.costUSD) then some .cost
    else if budget.timeMsMax.any (· ≤ (elapsed : ℚ)) then some .time
    else if budget.toolCallMax.any (· ≤ (toolCalls : ℚ)) then some .toolCall
    else none

/-- `BUDGET_DIMENSION_LABEL`. -/
def budgetDimensionLabel : BudgetDimension → String
  | .token => "token usage"
  | .cost => "cost"
  | .time => "time"
  | .toolCall => "tool calls"

/-- What an exhausted budget is reported with. -/
def budgetContext (r : Runner) (now : ℤ) (dimension : BudgetDimension) : ErrorContext :=
  .budget dimension
    ("Resource budget exhausted (" ++ budgetDimensionLabel dimension ++ "); the turn was " ++
      "aborted. Completed changes are kept — raise the budget to continue.")
    { input := r.state.cumulativeUsage.input
      output := r.state.cumulativeUsage.output
      costUSD := r.state.cumulativeUsage.costUSD
      timeMs := now - r.locals.turnStartedAt
      toolCalls := r.locals.toolCalls }
    ((options.budget <|> r.state.resourceBudget).getD
      { tokenMax := none, costUSDMax := none, timeMsMax := none, toolCallMax := none })

/-- What the limit of tool rounds is reported with. -/
def loopsContext (loops : ℕ) : ErrorContext :=
  .loops loops
    ("Reached the per-turn limit of " ++ toString loops ++ " consecutive tool-call rounds; the " ++
      "turn ended here. Completed changes are kept — send a follow-up message to continue in a " ++
      "new turn.")

/-- The decision a pass works with: that of a retry, the provider the turn sticks to, or a new
one of the router. -/
def chooseDecision (picked : Except String RouterDecision) : Code RouterDecision := do
  let l := (← get).locals
  match l.retryDecision with
  | some decision => return decision
  | none =>
    match l.sticky with
    | some provider =>
      return { provider := provider
               model := (l.decision.map RouterDecision.model).getD ""
               reason := "sticky-provider" }
    | none => Effect.ofExcept picked

/-- The conversation is compacted. -/
def applyCompaction (now : ℤ) (compaction : Except String Compaction) : Code Unit := do
  let turnId := (← get).locals.turnId
  update fun s => { s with turns := setStatus turnId .compacting s.turns }
  let snapshot ← Effect.ofExcept compaction
  update fun s =>
    { s with messages := snapshot.messages, turns := setStatus turnId .streaming s.turns }
  emit env now (.contextCompacted snapshot.beforeTokens snapshot.afterTokens snapshot.strategy
    snapshot.compactedMessageIds)

/-- The head of the loop, up to the stream of the model call. -/
def beginPass (now : ℤ) (picked : Except String RouterDecision) (composed : Except String String)
    (compaction : Option (Except String Compaction)) : Code Phase := do
  let r ← get
  if r.aborted then return .closing
  match exhaustedBudget options r.state (now - r.locals.turnStartedAt) r.locals.toolCalls with
  | some dimension =>
    emit env now (.errorRaised "subagent_budget_exhausted" (budgetContext options r now dimension))
    setLocals fun l => { l with abortReason := some .error }
    modify fun r => { r with aborted := true }
    return .closing
  | none =>
    if options.maxToolLoopsPerTurn ≤ r.locals.loops then
      emit env now (.errorRaised "tool_loop_exhausted" (loopsContext r.locals.loops))
      return .closing
    else
      setLocals fun l => { l with loops := l.loops + 1 }
      let decision ← chooseDecision picked
      setLocals fun l => { l with decision := some decision, retryDecision := none }
      let system ← Effect.ofExcept composed
      modify fun r =>
        if r.state.systemPromptSnapshot = some system then r
        else
          { r with
            state := updateSession r.state fun s => { s with systemPromptSnapshot := some system } }
      compaction.toList.forM (applyCompaction env now)
      let messageId ← drawId env
      emit env now (.streamStarted messageId (some decision.provider.name) (some decision.model))
      return .streaming messageId decision .empty

/-- The turn has failed, and why. -/
def fail (reason : AbortReason) : Code Unit :=
  setLocals fun l => { l with failed := true, abortReason := some reason }

/-- The stream was interrupted by the provider: `answer` is what the router says, `none` for
giving up. -/
def interrupted (now : ℤ) (reason : String) (answer : Except String (Option RouterDecision))
    (decision : RouterDecision) (current : InProgress) : Code Phase := do
  let hadPartialToolUse := !current.tools.isEmpty
  emit env now (.errorRaised "stream_interrupted" (.interruption reason hadPartialToolUse))
  if hadPartialToolUse then
    fail .streamInterrupted
    emit env now (.errorRaised "stream_resume_unsafe_partial_tool_use"
      (.reason "partial tool_use cannot be resumed or replayed safely"))
    return .closing
  else
    setLocals fun l => { l with attempts := l.attempts + 1 }
    let next ← Effect.ofExcept answer
    match next with
    | none =>
      fail .streamInterrupted
      return .closing
    | some next =>
      if (← get).locals.sticky.any (· ≠ next.provider) then
        fail .streamInterrupted
        emit env now (.errorRaised "provider_sticky_violation"
          (.reason "tool_use already in flight, cannot switch provider"))
        return .closing
      else
        if next.provider ≠ decision.provider then
          emit env now (.routerSwitched decision.provider.name (some next.provider.name)
            next.reason)
        setLocals fun l => { l with retryDecision := some next }
        return .looping

/-- `sticky ??= decision.provider` when a tool use starts. -/
def stick (provider : ProviderClient) : ProviderChunk → Code Unit
  | .toolUseStart _ _ => setLocals fun l => { l with sticky := l.sticky <|> some provider }
  | _ => pure ()

/-- A chunk of the stream. -/
def receive (now : ℤ) (chunk : ProviderChunk) (answer : Except String (Option RouterDecision))
    (messageId : String) (decision : RouterDecision) (current : InProgress) : Code Phase := do
  if (← get).aborted then return .closing
  else
    match chunk with
    | .messageInterrupted reason => interrupted env now reason answer decision current
    | chunk =>
      stick decision.provider chunk
      (deltaFragment chunk).toList.forM fun fragment =>
        emit env now (.streamDelta messageId fragment.1 fragment.2)
      return .streaming messageId decision (merge current chunk)

/-- The usage of the model call is added to that of the turn and of the session. -/
def spend (usage : Usage) : Code Unit := do
  setLocals fun l => { l with turnUsage := l.turnUsage + Spending.ofUsage usage }
  update fun s => { s with cumulativeUsage := s.cumulativeUsage.add usage }

/-- The tools of the message start: those whose arguments did not parse answer at once. -/
def startTools (now : ℤ) (toolUses : List ToolUse) (current : InProgress) : Code Phase := do
  if toolUses.isEmpty then return .closing
  else
    setLocals fun l => { l with toolCalls := l.toolCalls + toolUses.length }
    toolUses.forM fun tool => emit env now (.toolRequested tool.id tool.name tool.input)
    (toolUses.filter fun tool => !current.invalidTools.contains tool.id).forM fun tool =>
      emit env now (.toolStarted tool.id tool.name)
    return .executing toolUses now current

/-- The finished message is accounted for and reported, and its tools start. -/
def conclude (now : ℤ) (assistant : Message) (current : InProgress) : Code Phase := do
  current.usage.toList.forM spend
  setLocals fun l => { l with lastStopReason := current.stopReason <|> l.lastStopReason }
  emit env now (.streamCompleted assistant.id current.usage)
  emit env now (appendedPayload assistant)
  startTools env now (toolUsesOf current) (endAll current)

/-- The stream has ended: the message joins the conversation and its tools start. -/
def endStream (now : ℤ) (onSuccess : Except String Unit) (messageId : String)
    (decision : RouterDecision) (current : InProgress) : Code Phase := do
  if (← get).aborted then return .closing
  else
    Effect.ofExcept onSuccess
    let assistant := finish current decision messageId now
    append assistant
    conclude env now assistant current

/-- The message that answers a tool use joins the conversation. -/
def appendResult (now : ℤ) (toolUses : List ToolUse) (result : ToolExecution) : Code Unit := do
  let m ← newMessage env .user (resultContent result) now
  append m
  emit env now (completedPayload toolUses result)
  emit env now (appendedPayload m)

/-- The tools have answered. -/
def endTools (now : ℤ) (outcome : String → Except String Settled) (toolUses : List ToolUse)
    (startedAt : ℤ) (current : InProgress) : Code Phase := do
  let results ← Effect.ofExcept (settleAll current startedAt outcome toolUses)
  results.forM (appendResult env now toolUses)
  return .looping

/-- The loop has thrown. -/
def caught (now : ℤ) (error : String) : Code Phase := do
  fail .error
  let decision := (← get).locals.decision
  emit env now (.errorRaised "runner_error"
    (.failure error (decision.map fun d => d.provider.name) (decision.map RouterDecision.model)))
  return .closing

/-- The turn ends as aborted. -/
def Runner.endsAborted (r : Runner) : Bool :=
  r.locals.failed || r.aborted || r.state.pendingInterrupt

/-- The event at the end of the turn. -/
def settledPayload (aborted : Bool) (l : Locals) : Payload :=
  if aborted then
    .turnAborted l.turnId
      (if l.abortReason = some .streamInterrupted then .streamInterrupted
       else if l.failed then .error else .userInterrupt)
  else .turnCompleted l.turnId l.turnUsage.toUsage l.lastStopReason

/-- The event at the end of a turn that runs a task. -/
def taskPayload (aborted : Bool) (l : Locals) (now : ℤ) (task : TaskRun) : Payload :=
  let durationMs := max 0 (now - l.turnStartedAt)
  if aborted then .taskFailed task durationMs (if l.failed then .error else .interrupted)
  else .taskCompleted task durationMs

/-- The end of the turn, past its loop. -/
def endTurn (now : ℤ) : Code Phase := do
  let r ← get
  let aborted := r.endsAborted
  update fun s =>
    { s with
      activeTurn := none
      turns := setStatus r.locals.turnId (if aborted then .aborted else .done) s.turns }
  emit env now (settledPayload aborted r.locals)
  options.taskRun.toList.forM fun task => emit env now (taskPayload aborted r.locals now task)
  return .idle

/-! ### Steps -/

/-- What happens to the runner, with the answers it waits for. -/
inductive Action where
  | run (input : List ContentPart) (now : ℤ)
  | interrupt
  | pass (picked : Except String RouterDecision) (composed : Except String String)
      (compaction : Option (Except String Compaction)) (now : ℤ)
  | chunk (chunk : ProviderChunk) (answer : Except String (Option RouterDecision)) (now : ℤ)
  | streamEnd (onSuccess : Except String Unit) (now : ℤ)
  | streamError (error : String) (now : ℤ)
  | toolsEnd (outcome : String → Except String Settled) (now : ℤ)
  | settle (now : ℤ)

/-- The runner where the code leaves it: an error leaves `run`. -/
def Runner.leave (r : Runner) (code : Code Phase) : Runner :=
  match code r with
  | .ok phase t => { t with phase := phase }
  | .error _ t => { t with phase := .idle }

/-- The runner where the code of the loop leaves it: an error is caught at the end of the
loop. -/
def Runner.attempt (r : Runner) (now : ℤ) (code : Code Phase) : Runner :=
  match code r with
  | .ok phase t => { t with phase := phase }
  | .error e t => t.leave (caught env now e)

/-- `interrupt()`. -/
def Runner.interrupt (r : Runner) : Runner :=
  { r with
    state := updateSession r.state fun s => { s with pendingInterrupt := true }
    aborted := true }

/-- One step of the runner, if it waits for what happens. -/
def step (r : Runner) : Action → Option Runner
  | .run input now =>
    match r.phase with
    | .idle => some (r.leave (beginTurn env options input now))
    | _ => none
  | .interrupt => some r.interrupt
  | .pass picked composed compaction now =>
    match r.phase with
    | .looping => some (r.attempt env now (beginPass env options now picked composed compaction))
    | _ => none
  | .chunk chunk answer now =>
    match r.phase with
    | .streaming messageId decision current =>
      some (r.attempt env now (receive env now chunk answer messageId decision current))
    | _ => none
  | .streamEnd onSuccess now =>
    match r.phase with
    | .streaming messageId decision current =>
      some (r.attempt env now (endStream env now onSuccess messageId decision current))
    | _ => none
  | .streamError error now =>
    match r.phase with
    | .streaming _ _ _ => some (r.leave (caught env now error))
    | _ => none
  | .toolsEnd outcome now =>
    match r.phase with
    | .executing toolUses startedAt current =>
      some (r.attempt env now (endTools env now outcome toolUses startedAt current))
    | _ => none
  | .settle now =>
    match r.phase with
    | .closing => some (r.leave (endTurn env options now))
    | _ => none

end Code

end Core
