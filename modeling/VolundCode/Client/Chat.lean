import VolundCode.Client.Envelope

/-!
# The chat of the mobile client

The state that the mobile client shows of a session, and how an envelope changes it. It also keeps
what the model thinks and the calls of a subagent, and leaves what follows another session to the
page.

What becomes of the status of a tool call depends on the call alone (`reduceEnvelope_spec`).
-/

namespace Client

open List

namespace Chat

structure ChatMessage where
  id : String
  role : Role
  text : String
  thinking : Option String
  streaming : Bool
  images : List String
  isLocal : Bool
  seq : ℕ
  deriving DecidableEq

structure ToolCard where
  toolUseId : String
  tool : String
  status : Status
  seq : ℕ
  turnId : Option String
  task : Option TaskSummary
  target : Option String
  body : Option String
  deriving DecidableEq

structure SubagentToolRun where
  toolUseId : String
  tool : String
  status : Status
  target : Option String
  deriving DecidableEq

structure SubagentActivity where
  toolCalls : ℕ
  running : ℕ
  lastTool : Option String
  runs : List SubagentToolRun
  deriving DecidableEq

structure ChatState where
  messages : List ChatMessage
  tools : List ToolCard
  subagents : String → Option SubagentActivity
  turn : Turn
  permissions : List PendingCard
  asks : List PendingCard
  streamedChars : ℕ
  notice : Option String
  interrupted : Bool
  nextSeq : ℕ

def initialChatState : ChatState where
  messages := []
  tools := []
  subagents := fun _ => none
  turn := .idle
  permissions := []
  asks := []
  streamedChars := 0
  notice := none
  interrupted := false
  nextSeq := 1

/-- `SUBAGENT_RUNS_MAX`. -/
def subagentRunsMax : ℕ :=
  50

/-- A call of a subagent is running. The oldest are dropped when there are too many. -/
def upsertRun (runs : List SubagentToolRun) (id tool : String) (target : Option String) :
    List SubagentToolRun :=
  let next :=
    if runs.any fun run => run.toolUseId = id then
      runs.map fun run =>
        if run.toolUseId = id then
          { run with
            tool := tool
            status := .running
            target := target.or run.target }
        else run
    else runs ++ [⟨id, tool, .running, target⟩]
  next.drop (next.length - subagentRunsMax)

/-- A subagent has requested or started a call. -/
def bubbledCall (state : ChatState) (parentTurnId id tool : String) (target : Option String) :
    ChatState :=
  if id = "" ∨ tool = "" then state
  else
    let current := (state.subagents parentTurnId).getD ⟨0, 0, none, []⟩
    let known := current.runs.any fun run => run.toolUseId = id
    let activity : SubagentActivity :=
      { toolCalls := if known then current.toolCalls else current.toolCalls + 1
        running := if known then current.running else current.running + 1
        lastTool := some tool
        runs := upsertRun current.runs id tool target }
    { state with subagents := Function.update state.subagents parentTurnId (some activity) }

/-- An event that a subagent has forwarded. -/
def reduceBubbledEvent (texts : Texts) (state : ChatState) (e : Envelope) : ChatState :=
  match e.parentTurnId with
  | none => state
  | some parentTurnId =>
    if parentTurnId = "" then state
    else
      match e.event with
      | .toolRequested id tool input =>
        bubbledCall state parentTurnId id tool (texts.toolTargetLabel tool input)
      | .toolStarted id tool => bubbledCall state parentTurnId id tool none
      | .toolCompleted id failed _ _ =>
        match state.subagents parentTurnId with
        | none => state
        | some current =>
          let run := if id = "" then none else current.runs.find? fun run => run.toolUseId = id
          let runs :=
            if run.isSome then
              current.runs.map fun run =>
                if run.toolUseId = id then
                  { run with status := if failed then .error else .done }
                else run
            else current.runs
          let running :=
            if (run.all fun run => run.status = .running) then current.running - 1
            else current.running
          let activity := { current with running := running, runs := runs }
          { state with subagents := Function.update state.subagents parentTurnId (some activity) }
      | _ => state

/-- The messages that are still streamed are not any more. -/
def finalizeStreaming (messages : List ChatMessage) : List ChatMessage :=
  if messages.any ChatMessage.streaming then
    messages.map fun message =>
      if message.streaming then { message with streaming := false } else message
  else messages

/-- The calls that are running when a turn ends have failed. -/
def settleRunningTools (tools : List ToolCard) : List ToolCard :=
  if tools.any fun tool => tool.status = .running then
    tools.map fun tool =>
      if tool.status = .running then { tool with status := .error } else tool
  else tools

/-- A message is complete. An echo that it replaces leaves its images to it, unless it is shown
already. -/
def messageAppended (state : ChatState) (id : String) (role : Role)
    (content : List ContentPart) : ChatState :=
  let text := textOfContent content
  let thinking := thinkingOfContent content
  let contentImages := imagesOfContent content
  let known := state.messages.any fun message => message.id = id
  if !known && text = "" && thinking = "" && contentImages = [] then state
  else
    let echoImages :=
      if role = .user then
        ((state.messages.find? fun message => message.isLocal && message.images ≠ []).map
          ChatMessage.images).getD []
      else []
    let base :=
      if role = .user then state.messages.filter fun message => !message.isLocal
      else state.messages
    let images := if echoImages ≠ [] then echoImages else contentImages
    let shown := if thinking = "" then none else some thinking
    { state with
      messages :=
        if known then
          base.map fun message =>
            if message.id = id then
              { message with
                text := text
                thinking := shown.or message.thinking
                streaming := false }
            else message
        else base ++ [⟨id, role, text, shown, false, images, false, state.nextSeq⟩]
      nextSeq := if known then state.nextSeq else state.nextSeq + 1 }

/-- A fragment is added to a message. -/
def ChatMessage.apply (kind : DeltaKind) (fragment : String) (message : ChatMessage) :
    ChatMessage :=
  if kind = .text then
    { message with
      text := message.text ++ fragment
      streaming := true }
  else
    { message with
      thinking := some (message.thinking.getD "" ++ fragment)
      streaming := true }

/-- A fragment of a message. -/
def streamDelta (state : ChatState) (id : String) (kind : DeltaKind) (fragment : String) :
    ChatState :=
  if kind ≠ .text ∧ kind ≠ .thinking then state
  else
    let known := state.messages.any fun message => message.id = id
    let counted := if kind = .text then (Ecma.units fragment).length else 0
    { state with
      messages :=
        if known then
          state.messages.map fun message =>
            if message.id = id then message.apply kind fragment else message
        else
          state.messages ++
            [ChatMessage.apply kind fragment ⟨id, .assistant, "", none, false, [], false, state.nextSeq⟩]
      streamedChars := state.streamedChars + counted
      nextSeq := if known then state.nextSeq else state.nextSeq + 1 }

/-- A message begins to be streamed, and no other is any more. -/
def streamStarted (state : ChatState) (id : String) : ChatState :=
  if state.messages.any fun message => message.streaming && message.id ≠ id then
    { state with
      messages := state.messages.map fun message =>
        if message.streaming && message.id ≠ id then { message with streaming := false }
        else message }
  else state

/-- A card is added to the list. -/
def ChatState.add (state : ChatState) (card : ToolCard) : ChatState :=
  { state with
    nextSeq := state.nextSeq + 1
    tools := state.tools ++ [card] }

/-- The cards of a call are changed. -/
def ChatState.update (state : ChatState) (id : String) (f : ToolCard → ToolCard) : ChatState :=
  { state with tools := state.tools.map fun card => if card.toolUseId = id then f card else card }

/-- A call is requested. If it is known already, its card keeps its status. -/
def toolRequested (texts : Texts) (state : ChatState) (id tool : String) (input : Json) :
    ChatState :=
  let target := texts.toolTargetLabel tool input
  let body := texts.toolBodyLabel tool input
  let known := state.tools.any fun card => card.toolUseId = id
  if tool ≠ "Task" then
    if known then
      state.update id fun card =>
        { card with
          target := target.or card.target
          body := body.or card.body }
    else state.add ⟨id, tool, .running, state.nextSeq, none, none, target, body⟩
  else
    let task := texts.taskSummaryOf input
    if known then
      state.update id fun card =>
        { card with
          task := task.or card.task
          target := target.or card.target
          body := body.or card.body }
    else state.add ⟨id, "Task", .running, state.nextSeq, none, task, target, body⟩

/-- A call has started. -/
def toolStarted (state : ChatState) (turnId : Option String) (id tool : String) : ChatState :=
  if state.tools.any fun card => card.toolUseId = id then
    state.update id fun card =>
      { card with
        status := .running
        turnId := turnId.or card.turnId }
  else state.add ⟨id, tool, .running, state.nextSeq, turnId, none, none, none⟩

/-- A call has been completed. -/
def toolCompleted (state : ChatState) (id : String) (failed : Bool) : ChatState :=
  state.update id fun card => { card with status := if failed then .error else .done }

/-- A turn has been aborted. -/
def turnAborted (state : ChatState) (reason : AbortReason) : ChatState :=
  let messages := finalizeStreaming state.messages
  let tools := settleRunningTools state.tools
  match reason with
  | .error =>
    { state with
      turn := .idle
      messages := messages
      tools := tools
      notice := some (state.notice.getD "turn aborted due to an error") }
  | .streamInterrupted =>
    { state with
      turn := .idle
      messages := messages
      tools := tools
      notice := some (state.notice.getD "stream interrupted") }
  | .userInterrupt =>
    { state with
      turn := .idle
      messages := messages
      tools := tools
      interrupted := true }

/-- The cards of the requests that are pending: the whole queue, or its head from a gateway that does
not tell it. -/
def pendingCards (request : Option Json) (requests : List Json) (expiresAt : Option ℕ) :
    List PendingCard :=
  (if requests ≠ [] then requests else request.toList).map fun card => ⟨card, expiresAt⟩

/-- `reduceEnvelope`. -/
def reduceEnvelope (texts : Texts) (state : ChatState) (e : Envelope) : ChatState :=
  if e.forwarded then reduceBubbledEvent texts state e
  else
    match e.event with
    | .messageAppended id role content => messageAppended state id role content
    | .streamDelta id kind fragment => streamDelta state id kind fragment
    | .streamStarted id => streamStarted state id
    | .streamCompleted id =>
      { state with
        messages := state.messages.map fun message =>
          if message.id = id then { message with streaming := false } else message }
    | .turnStarted =>
      { state with
        turn := .running
        streamedChars := 0
        interrupted := false }
    | .turnCompleted _ =>
      { state with
        turn := .idle
        messages := finalizeStreaming state.messages
        tools := settleRunningTools state.tools }
    | .turnAborted reason => turnAborted state reason
    | .toolRequested id tool input => toolRequested texts state id tool input
    | .toolStarted id tool => toolStarted state e.turnId id tool
    | .toolCompleted id isError _ _ => toolCompleted state id isError
    | .errorRaised code message reason =>
      { state with notice := some (code ++ ": " ++ (message.or reason).getD "") }
    | .turnFailed message =>
      if e.kind = .view then
        { state with
          turn := .idle
          messages := finalizeStreaming state.messages
          tools := settleRunningTools state.tools
          notice := some (message.getD "turn failed") }
      else state
    | .permissionRequest request requests expiresAt =>
      let queue := pendingCards request requests expiresAt
      if e.kind = .view ∧ queue ≠ [] then { state with permissions := queue } else state
    | .permissionResolved => if e.kind = .view then { state with permissions := [] } else state
    | .askRequest request requests expiresAt =>
      let queue := pendingCards request requests expiresAt
      if e.kind = .view ∧ queue ≠ [] then { state with asks := queue } else state
    | .askResolved => if e.kind = .view then { state with asks := [] } else state
    | .machineOffline =>
      if e.kind = .view then { state with notice := some texts.machineOfflineNotice } else state
    | .machineOnline =>
      if e.kind = .view ∧ state.notice = some texts.machineOfflineNotice then
        { state with notice := none }
      else state
    | _ => state

/-- The state after a list of envelopes. -/
def run (texts : Texts) (es : List Envelope) : ChatState :=
  es.foldl (reduceEnvelope texts) initialChatState

/-! ### Turns and tools -/

/-- The status of the card of a call. -/
def ChatState.statusOf (state : ChatState) (id : String) : Option Status :=
  Client.statusOf ToolCard.toolUseId ToolCard.status state.tools id

/-- What becomes of the status of a call. -/
def step : Option Status → Signal → Option Status
  | none, .requested _ => some .running
  | some status, .requested _ => some status
  | _, .started => some .running
  | status, .completed isError => status.map fun _ => if isError then .error else .done
  | status, .ended => status.map Status.settle
  | status, .silent => status

/-- The cards when one has been changed or added. -/
theorem tools_upsert (state : ChatState) (id : String) (f : ToolCard → ToolCard) (card : ToolCard) :
  (if state.tools.any fun card => card.toolUseId = id then state.update id f
    else state.add card).tools =
    if state.tools.any fun card => card.toolUseId = id then
      state.tools.map fun card => if card.toolUseId = id then f card else card
    else state.tools ++ [card]
  := by
  split_ifs
  · rfl
  · rfl

/-- The status of a call when its card has been changed or added. -/
theorem statusOf_upsert (state : ChatState) {id : String} {f : ToolCard → ToolCard}
    {g : Status → Status} {card : ToolCard} (hcard : card.toolUseId = id)
    (hf : ∀ card, (f card).toolUseId = card.toolUseId)
    (hg : ∀ card, (f card).status = g card.status) (id' : String) :
  (if state.tools.any fun card => card.toolUseId = id then state.update id f
    else state.add card).statusOf id' =
    if id = id' then some ((state.statusOf id).elim card.status g) else state.statusOf id'
  := by
  rw [ChatState.statusOf, tools_upsert]
  exact Client.statusOf_upsert _ _ hcard hf hg id'

/-- The calls that are running when a turn ends have failed. -/
theorem settleRunningTools_eq (state : ChatState) :
  settleRunningTools state.tools = state.tools.map fun tool =>
    if tool.status = .running then { tool with status := .error } else tool
  := by
  apply map_of_any
  intro tool htool
  rw [if_neg (of_decide_eq_false htool)]

/-- The status of a call when its turn has ended. -/
theorem statusOf_settle (state : ChatState) (id : String) :
  Client.statusOf ToolCard.toolUseId ToolCard.status (settleRunningTools state.tools) id =
    (state.statusOf id).map Status.settle
  := by
  rw [settleRunningTools_eq]
  apply Client.statusOf_map
  · intro tool
    split_ifs
    · rfl
    · rfl
  intro tool
  by_cases hruns : tool.status = .running
  · rw [if_pos hruns, hruns]
    rfl
  · rw [if_neg hruns]
    exact (Status.settle_of_ne hruns).symm

/-- What becomes of the status of a call when one is requested. -/
theorem statusOf_toolRequested (texts : Texts) (state : ChatState) (id tool : String) (input : Json)
    (id' : String) :
  (toolRequested texts state id tool input).statusOf id' =
    if id = id' then step (state.statusOf id') (.requested tool) else state.statusOf id'
  := by
  have hstep :
      (if id = id' then some ((state.statusOf id).elim .running fun status => status)
        else state.statusOf id') =
        if id = id' then step (state.statusOf id') (.requested tool) else state.statusOf id' := by
    by_cases hsame : id = id'
    · rw [if_pos hsame, if_pos hsame, ← hsame]
      cases state.statusOf id with
      | none | some status => rfl
    · rw [if_neg hsame, if_neg hsame]
  rw [← hstep]
  unfold toolRequested
  by_cases htool : tool ≠ "Task"
  · rw [if_pos htool]
    apply statusOf_upsert
    · rfl
    all_goals
      intro card
      rfl
  rw [if_neg htool]
  apply statusOf_upsert
  · rfl
  all_goals
    intro card
    rfl

/-- What becomes of the status of a call when one starts. -/
theorem statusOf_toolStarted (state : ChatState) (turnId : Option String) (id tool id' : String) :
  (toolStarted state turnId id tool).statusOf id' =
    if id = id' then some .running else state.statusOf id'
  := by
  have hruns : (if id = id' then some Status.running else state.statusOf id') =
      if id = id' then some ((state.statusOf id).elim .running fun _ => .running)
      else state.statusOf id' := by
    cases state.statusOf id with
    | none | some status => rfl
  rw [hruns]
  unfold toolStarted
  apply statusOf_upsert
  · rfl
  all_goals
    intro card
    rfl

/-- The turn and the tools are as they were. -/
structure Same (state state' : ChatState) : Prop where
  tools : state'.tools = state.tools
  turn : state'.turn = state.turn
  interrupted : state'.interrupted = state.interrupted

/-- A call of a subagent leaves the turn and the tools as they are. -/
theorem bubbledCall_eq (state : ChatState) (parentTurnId id tool : String)
    (target : Option String) :
  Same state (bubbledCall state parentTurnId id tool target)
  := by
  unfold bubbledCall
  split_ifs
  all_goals exact ⟨rfl, rfl, rfl⟩

/-- Events that a subagent has forwarded leave the turn and the tools as they are. -/
theorem reduceBubbledEvent_eq (texts : Texts) (state : ChatState) (e : Envelope) :
  Same state (reduceBubbledEvent texts state e)
  := by
  unfold reduceBubbledEvent
  cases e.parentTurnId with
  | none => exact ⟨rfl, rfl, rfl⟩
  | some parentTurnId =>
  dsimp only
  split_ifs
  · exact ⟨rfl, rfl, rfl⟩
  cases e.event with
  | toolRequested id tool input => exact bubbledCall_eq state parentTurnId id tool _
  | toolStarted id tool => exact bubbledCall_eq state parentTurnId id tool none
  | toolCompleted id isError linesAdded linesRemoved =>
    dsimp only
    cases state.subagents parentTurnId with
    | none | some current => exact ⟨rfl, rfl, rfl⟩
  | _ => exact ⟨rfl, rfl, rfl⟩

/-- A complete message leaves the turn and the tools as they are. -/
theorem messageAppended_eq (state : ChatState) (id : String) (role : Role)
    (content : List ContentPart) :
  Same state (messageAppended state id role content)
  := by
  unfold messageAppended
  dsimp only
  split_ifs
  all_goals exact ⟨rfl, rfl, rfl⟩

/-- A message that begins leaves the turn and the tools as they are. -/
theorem streamStarted_eq (state : ChatState) (id : String) :
  Same state (streamStarted state id)
  := by
  unfold streamStarted
  split_ifs
  all_goals exact ⟨rfl, rfl, rfl⟩

/-- A fragment of a message leaves the turn and the tools as they are. -/
theorem streamDelta_eq (state : ChatState) (id : String) (kind : DeltaKind) (fragment : String) :
  Same state (streamDelta state id kind fragment)
  := by
  unfold streamDelta
  dsimp only
  split_ifs
  all_goals exact ⟨rfl, rfl, rfl⟩

/-- A call that is requested leaves the turn as it is. -/
theorem toolRequested_eq (texts : Texts) (state : ChatState) (id tool : String) (input : Json) :
  (toolRequested texts state id tool input).turn = state.turn ∧
    (toolRequested texts state id tool input).interrupted = state.interrupted
  := by
  unfold toolRequested
  dsimp only
  split_ifs
  all_goals exact ⟨rfl, rfl⟩

/-- A call that starts leaves the turn as it is. -/
theorem toolStarted_eq (state : ChatState) (turnId : Option String) (id tool : String) :
  (toolStarted state turnId id tool).turn = state.turn ∧
    (toolStarted state turnId id tool).interrupted = state.interrupted
  := by
  unfold toolStarted
  split_ifs
  all_goals exact ⟨rfl, rfl⟩

/-- What becomes of the status of a call depends on the call alone, and whether a turn is running
and was interrupted on the events of turns. -/
theorem reduceEnvelope_spec (texts : Texts) (state : ChatState) (e : Envelope) :
  (∀ id, (reduceEnvelope texts state e).statusOf id = step (state.statusOf id) (e.signal id)) ∧
    (reduceEnvelope texts state e).turn = e.turn state.turn ∧
    (reduceEnvelope texts state e).interrupted = e.interrupted state.interrupted
  := by
  have hsil (id : String) : step (state.statusOf id) .silent = state.statusOf id := by
    cases state.statusOf id with
    | none | some status => rfl
  have hsame (state' : ChatState) (h : Same state state') :
      (∀ id, state'.statusOf id = step (state.statusOf id) .silent) ∧ state'.turn = state.turn ∧
        state'.interrupted = state.interrupted := by
    constructor
    · intro id
      rw [hsil, ChatState.statusOf, h.tools]
      rfl
    · exact ⟨h.turn, h.interrupted⟩
  have hended (state' : ChatState) (h : state'.tools = settleRunningTools state.tools) (id : String) :
      state'.statusOf id = step (state.statusOf id) .ended := by
    rw [ChatState.statusOf, h, statusOf_settle]
    cases state.statusOf id with
    | none | some status => rfl
  unfold reduceEnvelope Envelope.signal Envelope.turn Envelope.interrupted
  by_cases hfwd : e.forwarded
  · simp only [if_pos hfwd]
    exact hsame _ (reduceBubbledEvent_eq texts state e)
  simp only [if_neg hfwd]
  cases e.event with
  | messageAppended id role content => exact hsame _ (messageAppended_eq state id role content)
  | streamStarted id => exact hsame _ (streamStarted_eq state id)
  | streamDelta id kind fragment => exact hsame _ (streamDelta_eq state id kind fragment)
  | turnStarted => exact ⟨fun id => (hsil id).symm, rfl, rfl⟩
  | turnCompleted usage => exact ⟨hended _ rfl, rfl, rfl⟩
  | turnAborted reason =>
    cases reason with
    | userInterrupt | error | streamInterrupted => exact ⟨hended _ rfl, rfl, rfl⟩
  | toolRequested id' tool input =>
    refine ⟨fun id => ?_, toolRequested_eq texts state id' tool input⟩
    dsimp only
    rw [statusOf_toolRequested]
    by_cases hid : id' = id
    · rw [if_pos hid, if_pos hid]
    · rw [if_neg hid, if_neg hid, hsil]
  | toolStarted id' tool =>
    refine ⟨fun id => ?_, toolStarted_eq state e.turnId id' tool⟩
    dsimp only
    rw [statusOf_toolStarted]
    by_cases hid : id' = id
    · rw [if_pos hid, if_pos hid]
      cases state.statusOf id with
      | none | some status => rfl
    · rw [if_neg hid, if_neg hid, hsil]
  | toolCompleted id' isError linesAdded linesRemoved =>
    refine ⟨fun id => ?_, rfl, rfl⟩
    refine (Client.statusOf_update (g := fun _ => if isError then .error else .done) _ _ ?_ ?_
      id).trans ?_
    · intro card
      rfl
    · intro card
      rfl
    change (if id' = id then (state.statusOf id).map _ else state.statusOf id) = _
    dsimp only
    by_cases hid : id' = id
    · rw [if_pos hid, if_pos hid]
      cases state.statusOf id with
      | none | some status => rfl
    · rw [if_neg hid, if_neg hid, hsil]
  | turnFailed message =>
    dsimp only
    split_ifs
    · exact ⟨hended _ rfl, rfl, rfl⟩
    · exact hsame _ ⟨rfl, rfl, rfl⟩
  | permissionRequest request requests expiresAt | permissionResolved
  | askRequest request requests expiresAt | askResolved | machineOffline | machineOnline =>
    dsimp only
    split_ifs
    all_goals exact hsame _ ⟨rfl, rfl, rfl⟩
  | _ => exact hsame _ ⟨rfl, rfl, rfl⟩

/-- The ids of the cards are different. -/
def ChatState.Distinct (state : ChatState) : Prop :=
  (state.tools.map ToolCard.toolUseId).Nodup

/-- The cards have different ids after an envelope. -/
theorem distinct_reduceEnvelope {texts : Texts} {state : ChatState} (h : state.Distinct)
    (e : Envelope) :
  (reduceEnvelope texts state e).Distinct
  := by
  have hsame : ∀ state' : ChatState, state'.tools = state.tools → state'.Distinct := by
    intro state' htools
    rw [ChatState.Distinct, htools]
    exact h
  have hview : ∀ (p : Prop) [Decidable p] (state' : ChatState), state'.tools = state.tools →
      (if p then state' else state).Distinct := by
    intro p _ state' htools
    split_ifs
    · exact hsame state' htools
    · exact h
  have hsettle : ∀ state' : ChatState, state'.tools = settleRunningTools state.tools →
      state'.Distinct := by
    intro state' htools
    rw [ChatState.Distinct, htools, settleRunningTools_eq]
    apply nodup_map _ h
    intro tool
    split_ifs
    · rfl
    · rfl
  have hupsert : ∀ (id : String) (f : ToolCard → ToolCard) (card : ToolCard),
      card.toolUseId = id → (∀ card, (f card).toolUseId = card.toolUseId) →
      (if state.tools.any fun card => card.toolUseId = id then state.update id f
        else state.add card).Distinct := by
    intro id f card hcard hf
    rw [ChatState.Distinct, tools_upsert]
    exact nodup_upsert _ h hcard hf
  unfold reduceEnvelope
  by_cases hfwd : e.forwarded
  · rw [if_pos hfwd]
    exact hsame _ (reduceBubbledEvent_eq texts state e).1
  rw [if_neg hfwd]
  cases e.event with
  | messageAppended id role content => exact hsame _ (messageAppended_eq state id role content).1
  | streamStarted id => exact hsame _ (streamStarted_eq state id).1
  | streamDelta id kind fragment => exact hsame _ (streamDelta_eq state id kind fragment).1
  | turnCompleted usage => exact hsettle _ rfl
  | turnAborted reason =>
    cases reason with
    | userInterrupt | error | streamInterrupted => exact hsettle _ rfl
  | toolRequested id tool input =>
    dsimp only [toolRequested]
    by_cases htool : tool ≠ "Task"
    · rw [if_pos htool]
      apply hupsert
      · rfl
      · intro card
        rfl
    rw [if_neg htool]
    apply hupsert
    · rfl
    · intro card
      rfl
  | toolStarted id tool =>
    apply hupsert
    · rfl
    · intro card
      rfl
  | toolCompleted id isError linesAdded linesRemoved =>
    apply nodup_map _ h
    intro card
    by_cases hid : card.toolUseId = id
    · rw [if_pos hid]
    · rw [if_neg hid]
  | turnFailed message =>
    dsimp only
    by_cases hkind : e.kind = .view
    · rw [if_pos hkind]
      exact hsettle _ rfl
    · rw [if_neg hkind]
      exact h
  | permissionRequest request requests expiresAt | permissionResolved
  | askRequest request requests expiresAt | askResolved | machineOffline | machineOnline =>
    apply hview
    rfl
  | _ => exact hsame _ rfl

/-- The cards have different ids after a list of envelopes. -/
theorem distinct_run (texts : Texts) (es : List Envelope) :
  (run texts es).Distinct
  := by
  induction es using List.reverseRecOn with
  | nil => exact nodup_nil
  | append_singleton es e ih =>
    rw [run, foldl_concat]
    exact distinct_reduceEnvelope ih e

/-- The status of a call after a list of envelopes. -/
theorem statusOf_run (texts : Texts) (es : List Envelope) (id : String) :
  (run texts es).statusOf id = (es.map fun e => e.signal id).foldl step none
  := by
  induction es using List.reverseRecOn with
  | nil => rfl
  | append_singleton es e ih =>
    rw [run, foldl_concat, map_append, map_singleton, foldl_concat,
      (reduceEnvelope_spec texts _ e).1, ← ih]
    rfl

/-- Whether a turn is running and was interrupted after a list of envelopes. -/
theorem turn_run (texts : Texts) (es : List Envelope) :
  (run texts es).turn = es.foldl (fun turn e => e.turn turn) .idle ∧
    (run texts es).interrupted = es.foldl (fun interrupted e => e.interrupted interrupted) false
  := by
  induction es using List.reverseRecOn with
  | nil => exact ⟨rfl, rfl⟩
  | append_singleton es e ih =>
    rw [foldl_concat, foldl_concat, ← ih.1, ← ih.2, run, foldl_concat]
    exact (reduceEnvelope_spec texts _ e).2

end Chat

end Client
