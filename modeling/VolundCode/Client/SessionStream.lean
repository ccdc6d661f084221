import VolundCode.Client.Envelope

/-!
# The session stream of the web client

The state that the web client shows of a session, and how an envelope changes it. Events that a
subagent has forwarded count for the activity of the subagent alone.

What becomes of the status of a tool call depends on the call alone (`reduceEnvelope_spec`).
-/

namespace Client

open List

namespace SessionStream

structure ChatMessage where
  id : String
  role : Role
  text : String
  streaming : Bool
  images : List String
  isLocal : Bool
  seq : ℕ
  deriving DecidableEq

structure ToolCard where
  toolUseId : String
  tool : String
  status : Status
  seq : ℕ
  turnId : Option String
  task : Option TaskSummary
  target : Option String
  body : Option String
  linesAdded : Option ℕ
  linesRemoved : Option ℕ
  deriving DecidableEq

structure SubagentActivity where
  toolCalls : ℕ
  running : ℕ
  lastTool : Option String
  deriving DecidableEq

structure ChatState where
  messages : List ChatMessage
  tools : List ToolCard
  subagents : String → Option SubagentActivity
  turn : Turn
  usage : Option Json
  permission : Option Json
  ask : Option Json
  sendQueue : List (String × String)
  streamedChars : ℕ
  permissionMode : Option PermissionMode
  notice : Option String
  interrupted : Bool
  nextSeq : ℕ

def initialChatState : ChatState where
  messages := []
  tools := []
  subagents := fun _ => none
  turn := .idle
  usage := none
  permission := none
  ask := none
  sendQueue := []
  streamedChars := 0
  permissionMode := none
  notice := none
  interrupted := false
  nextSeq := 1

/-- An event that a subagent has forwarded. -/
def reduceBubbledEvent (state : ChatState) (e : Envelope) : ChatState :=
  match e.parentTurnId with
  | none => state
  | some parentTurnId =>
    if parentTurnId = "" then state
    else
      match e.event with
      | .toolStarted _ tool =>
        let current := (state.subagents parentTurnId).getD ⟨0, 0, none⟩
        let activity : SubagentActivity :=
          { toolCalls := current.toolCalls + 1
            running := current.running + 1
            lastTool := some tool }
        { state with subagents := Function.update state.subagents parentTurnId (some activity) }
      | .toolCompleted .. =>
        match state.subagents parentTurnId with
        | none => state
        | some current =>
          let activity := { current with running := current.running - 1 }
          { state with subagents := Function.update state.subagents parentTurnId (some activity) }
      | _ => state

/-- The calls that are running when a turn ends have failed. -/
def settleRunningTools (state : ChatState) : List ToolCard :=
  if state.tools.any fun tool => tool.status = .running then
    state.tools.map fun tool =>
      if tool.status = .running then { tool with status := .error } else tool
  else state.tools

/-- A message is complete. An echo that it replaces leaves its images to it. -/
def messageAppended (state : ChatState) (id : String) (role : Role)
    (content : List ContentPart) : ChatState :=
  let text := textOfContent content
  let contentImages := imagesOfContent content
  let known := state.messages.any fun message => message.id = id
  if !known && text = "" && contentImages = [] then state
  else
    let echoImages :=
      if role = .user then
        ((state.messages.find? fun message => message.isLocal && message.images ≠ []).map
          ChatMessage.images).getD []
      else []
    let base :=
      if role = .user then state.messages.filter fun message => !message.isLocal
      else state.messages
    let images := if echoImages ≠ [] then echoImages else contentImages
    { state with
      messages :=
        if known then
          base.map fun message =>
            if message.id = id then
              { message with
                text := text
                streaming := false
                images := if images ≠ [] then images else message.images }
            else message
        else base ++ [⟨id, role, text, false, images, false, state.nextSeq⟩]
      nextSeq := if known then state.nextSeq else state.nextSeq + 1 }

/-- A fragment of a message. -/
def streamDelta (state : ChatState) (id : String) (kind : DeltaKind) (fragment : String) :
    ChatState :=
  if kind ≠ .text then state
  else
    let known := state.messages.any fun message => message.id = id
    { state with
      messages :=
        if known then
          state.messages.map fun message =>
            if message.id = id then
              { message with
                text := message.text ++ fragment
                streaming := true }
            else message
        else state.messages ++ [⟨id, .assistant, fragment, true, [], false, state.nextSeq⟩]
      streamedChars := state.streamedChars + (Ecma.units fragment).length
      nextSeq := if known then state.nextSeq else state.nextSeq + 1 }

/-- A card is added to the list. -/
def ChatState.add (state : ChatState) (card : ToolCard) : ChatState :=
  { state with
    nextSeq := state.nextSeq + 1
    tools := state.tools ++ [card] }

/-- The cards of a call are changed. -/
def ChatState.update (state : ChatState) (id : String) (f : ToolCard → ToolCard) : ChatState :=
  { state with tools := state.tools.map fun card => if card.toolUseId = id then f card else card }

/-- A call is requested. If it is known already, its card is running again, unless it is that of a
subagent. -/
def toolRequested (texts : Texts) (state : ChatState) (id tool : String) (input : Json) :
    ChatState :=
  let target := texts.toolTargetLabel tool input
  let body := texts.toolBodyLabel tool input
  let known := state.tools.any fun card => card.toolUseId = id
  if tool ≠ "Task" then
    if known then
      state.update id fun card =>
        { card with
          status := .running
          target := target.or card.target
          body := body.or card.body }
    else state.add ⟨id, tool, .running, state.nextSeq, none, none, target, body, none, none⟩
  else
    let task := texts.taskSummaryOf input
    if known then
      state.update id fun card =>
        { card with
          task := task.or card.task
          target := target.or card.target
          body := body.or card.body }
    else state.add ⟨id, "Task", .running, state.nextSeq, none, task, target, body, none, none⟩

/-- A call has started. -/
def toolStarted (state : ChatState) (turnId : Option String) (id tool : String) : ChatState :=
  if state.tools.any fun card => card.toolUseId = id then
    state.update id fun card =>
      { card with
        status := .running
        turnId := turnId.or card.turnId }
  else state.add ⟨id, tool, .running, state.nextSeq, turnId, none, none, none, none, none⟩

/-- A call has been completed. -/
def toolCompleted (state : ChatState) (id : String) (failed : Bool)
    (linesAdded linesRemoved : Option ℕ) : ChatState :=
  state.update id fun card =>
    { card with
      status := if failed then .error else .done
      linesAdded := linesAdded.or card.linesAdded
      linesRemoved := linesRemoved.or card.linesRemoved }

/-- A turn has been aborted. -/
def turnAborted (state : ChatState) (reason : AbortReason) : ChatState :=
  let tools := settleRunningTools state
  match reason with
  | .error =>
    { state with
      turn := .idle
      tools := tools
      notice := some (state.notice.getD "turn aborted due to an error") }
  | .streamInterrupted =>
    { state with
      turn := .idle
      tools := tools
      notice := some (state.notice.getD "stream interrupted") }
  | .userInterrupt =>
    { state with
      turn := .idle
      tools := tools
      interrupted := true }

/-- `reduceEnvelope`. -/
def reduceEnvelope (texts : Texts) (state : ChatState) (e : Envelope) : ChatState :=
  if e.forwarded then reduceBubbledEvent state e
  else
    match e.event with
    | .messageAppended id role content => messageAppended state id role content
    | .streamDelta id kind fragment => streamDelta state id kind fragment
    | .streamCompleted id =>
      { state with
        messages := state.messages.map fun message =>
          if message.id = id then { message with streaming := false } else message }
    | .turnStarted =>
      { state with
        turn := .running
        usage := none
        streamedChars := 0
        interrupted := false }
    | .turnCompleted usage =>
      { state with
        turn := .idle
        usage := some usage
        tools := settleRunningTools state }
    | .turnAborted reason => turnAborted state reason
    | .toolRequested id tool input => toolRequested texts state id tool input
    | .toolStarted id tool => toolStarted state e.turnId id tool
    | .toolCompleted id isError linesAdded linesRemoved =>
      toolCompleted state id isError linesAdded linesRemoved
    | .errorRaised code message reason =>
      { state with notice := some (code ++ ": " ++ (message.or reason).getD "") }
    | .turnFailed message =>
      if e.kind = .view then
        { state with
          turn := .idle
          tools := settleRunningTools state
          notice := some (message.getD "turn failed") }
      else state
    | .permissionRequest request _ _ =>
      if e.kind = .view then { state with permission := request.or state.permission } else state
    | .permissionResolved => if e.kind = .view then { state with permission := none } else state
    | .askRequest request _ _ =>
      if e.kind = .view then { state with ask := request.or state.ask } else state
    | .askResolved => if e.kind = .view then { state with ask := none } else state
    | .permissionMode mode =>
      if e.kind = .view then { state with permissionMode := mode.or state.permissionMode }
      else state
    | .sessionAttached =>
      if e.kind = .view then
        { initialChatState with
          permissionMode := state.permissionMode
          notice := some texts.attachedNotice }
      else state
    | _ => state

/-- The state after a list of envelopes. -/
def run (texts : Texts) (es : List Envelope) : ChatState :=
  es.foldl (reduceEnvelope texts) initialChatState

/-! ### Turns and tools -/

/-- The status of the card of a call. -/
def ChatState.statusOf (state : ChatState) (id : String) : Option Status :=
  Client.statusOf ToolCard.toolUseId ToolCard.status state.tools id

/-- What becomes of the status of a call. -/
def step : Option Status → Signal → Option Status
  | none, .requested _ => some .running
  | some status, .requested tool => if tool ≠ "Task" then some .running else some status
  | _, .started => some .running
  | status, .completed isError => status.map fun _ => if isError then .error else .done
  | status, .ended => status.map Status.settle
  | status, .silent => status

/-- The cards when one has been changed or added. -/
theorem tools_upsert (state : ChatState) (id : String) (f : ToolCard → ToolCard) (card : ToolCard) :
  (if state.tools.any fun card => card.toolUseId = id then state.update id f
    else state.add card).tools =
    if state.tools.any fun card => card.toolUseId = id then
      state.tools.map fun card => if card.toolUseId = id then f card else card
    else state.tools ++ [card]
  := by
  split_ifs
  · rfl
  · rfl

/-- The status of a call when its card has been changed or added. -/
theorem statusOf_upsert (state : ChatState) {id : String} {f : ToolCard → ToolCard}
    {g : Status → Status} {card : ToolCard} (hcard : card.toolUseId = id)
    (hf : ∀ card, (f card).toolUseId = card.toolUseId)
    (hg : ∀ card, (f card).status = g card.status) (id' : String) :
  (if state.tools.any fun card => card.toolUseId = id then state.update id f
    else state.add card).statusOf id' =
    if id = id' then some ((state.statusOf id).elim card.status g) else state.statusOf id'
  := by
  rw [ChatState.statusOf, tools_upsert]
  exact Client.statusOf_upsert _ _ hcard hf hg id'

/-- The calls that are running when a turn ends have failed. -/
theorem settleRunningTools_eq (state : ChatState) :
  settleRunningTools state = state.tools.map fun tool =>
    if tool.status = .running then { tool with status := .error } else tool
  := by
  apply map_of_any
  intro tool htool
  rw [if_neg (of_decide_eq_false htool)]

/-- The status of a call when its turn has ended. -/
theorem statusOf_settle (state : ChatState) (id : String) :
  Client.statusOf ToolCard.toolUseId ToolCard.status (settleRunningTools state) id =
    (state.statusOf id).map Status.settle
  := by
  rw [settleRunningTools_eq]
  apply Client.statusOf_map
  · intro tool
    split_ifs
    · rfl
    · rfl
  intro tool
  by_cases hruns : tool.status = .running
  · rw [if_pos hruns, hruns]
    rfl
  · rw [if_neg hruns]
    exact (Status.settle_of_ne hruns).symm

/-- What becomes of the status of a call when one is requested. -/
theorem statusOf_toolRequested (texts : Texts) (state : ChatState) (id tool : String) (input : Json)
    (id' : String) :
  (toolRequested texts state id tool input).statusOf id' =
    if id = id' then step (state.statusOf id') (.requested tool) else state.statusOf id'
  := by
  have hstep : ∀ g : Status → Status,
      (∀ status, step (some status) (.requested tool) = some (g status)) →
      (if id = id' then some ((state.statusOf id).elim .running g) else state.statusOf id') =
        if id = id' then step (state.statusOf id') (.requested tool) else state.statusOf id' := by
    intro g hg
    by_cases hsame : id = id'
    · rw [if_pos hsame, if_pos hsame, ← hsame]
      cases state.statusOf id with
      | none => rfl
      | some status => exact (hg status).symm
    · rw [if_neg hsame, if_neg hsame]
  unfold toolRequested
  by_cases htool : tool ≠ "Task"
  · rw [if_pos htool, ← hstep fun _ => .running]
    · apply statusOf_upsert
      · rfl
      all_goals
        intro card
        rfl
    · intro status
      rw [step, if_pos htool]
  rw [if_neg htool, ← hstep fun status => status]
  · apply statusOf_upsert
    · rfl
    all_goals
      intro card
      rfl
  · intro status
    rw [step, if_neg htool]

/-- What becomes of the status of a call when one starts. -/
theorem statusOf_toolStarted (state : ChatState) (turnId : Option String) (id tool id' : String) :
  (toolStarted state turnId id tool).statusOf id' =
    if id = id' then some .running else state.statusOf id'
  := by
  have hruns : (if id = id' then some Status.running else state.statusOf id') =
      if id = id' then some ((state.statusOf id).elim .running fun _ => .running)
      else state.statusOf id' := by
    cases state.statusOf id with
    | none | some status => rfl
  rw [hruns]
  unfold toolStarted
  apply statusOf_upsert
  · rfl
  all_goals
    intro card
    rfl

/-- The turn and the tools are as they were. -/
structure Same (state state' : ChatState) : Prop where
  tools : state'.tools = state.tools
  turn : state'.turn = state.turn
  interrupted : state'.interrupted = state.interrupted

/-- Events that a subagent has forwarded leave the turn and the tools as they are. -/
theorem reduceBubbledEvent_eq (state : ChatState) (e : Envelope) :
  Same state (reduceBubbledEvent state e)
  := by
  unfold reduceBubbledEvent
  cases e.parentTurnId with
  | none => exact ⟨rfl, rfl, rfl⟩
  | some parentTurnId =>
  dsimp only
  split_ifs
  · exact ⟨rfl, rfl, rfl⟩
  cases e.event with
  | toolCompleted id isError linesAdded linesRemoved =>
    dsimp only
    cases state.subagents parentTurnId with
    | none | some current => exact ⟨rfl, rfl, rfl⟩
  | _ => exact ⟨rfl, rfl, rfl⟩

/-- A complete message leaves the turn and the tools as they are. -/
theorem messageAppended_eq (state : ChatState) (id : String) (role : Role)
    (content : List ContentPart) :
  Same state (messageAppended state id role content)
  := by
  unfold messageAppended
  dsimp only
  split_ifs
  all_goals exact ⟨rfl, rfl, rfl⟩

/-- A fragment of a message leaves the turn and the tools as they are. -/
theorem streamDelta_eq (state : ChatState) (id : String) (kind : DeltaKind) (fragment : String) :
  Same state (streamDelta state id kind fragment)
  := by
  unfold streamDelta
  dsimp only
  split_ifs
  all_goals exact ⟨rfl, rfl, rfl⟩

variable {texts : Texts}

/-- A call that is requested leaves the turn as it is. -/
theorem toolRequested_eq (texts : Texts) (state : ChatState) (id tool : String) (input : Json) :
  (toolRequested texts state id tool input).turn = state.turn ∧
    (toolRequested texts state id tool input).interrupted = state.interrupted
  := by
  unfold toolRequested
  dsimp only
  split_ifs
  all_goals exact ⟨rfl, rfl⟩

/-- A call that starts leaves the turn as it is. -/
theorem toolStarted_eq (state : ChatState) (turnId : Option String) (id tool : String) :
  (toolStarted state turnId id tool).turn = state.turn ∧
    (toolStarted state turnId id tool).interrupted = state.interrupted
  := by
  unfold toolStarted
  split_ifs
  all_goals exact ⟨rfl, rfl⟩

/-- What becomes of the status of a call depends on the call alone, and whether a turn is running
and was interrupted on the events of turns. -/
theorem reduceEnvelope_spec {state : ChatState} {e : Envelope} (he : ¬ e.attaches) :
  (∀ id, (reduceEnvelope texts state e).statusOf id = step (state.statusOf id) (e.signal id)) ∧
    (reduceEnvelope texts state e).turn = e.turn state.turn ∧
    (reduceEnvelope texts state e).interrupted = e.interrupted state.interrupted
  := by
  have hsil (id : String) : step (state.statusOf id) .silent = state.statusOf id := by
    cases state.statusOf id with
    | none | some status => rfl
  have hsame (state' : ChatState) (h : Same state state') :
      (∀ id, state'.statusOf id = step (state.statusOf id) .silent) ∧ state'.turn = state.turn ∧
        state'.interrupted = state.interrupted := by
    constructor
    · intro id
      rw [hsil, ChatState.statusOf, h.tools]
      rfl
    · exact ⟨h.turn, h.interrupted⟩
  have hended (state' : ChatState) (h : state'.tools = settleRunningTools state) (id : String) :
      state'.statusOf id = step (state.statusOf id) .ended := by
    rw [ChatState.statusOf, h, statusOf_settle]
    cases state.statusOf id with
    | none | some status => rfl
  unfold reduceEnvelope Envelope.signal Envelope.turn Envelope.interrupted
  by_cases hfwd : e.forwarded
  · simp only [if_pos hfwd]
    exact hsame _ (reduceBubbledEvent_eq state e)
  simp only [if_neg hfwd]
  cases hevent : e.event with
  | messageAppended id role content => exact hsame _ (messageAppended_eq state id role content)
  | streamDelta id kind fragment => exact hsame _ (streamDelta_eq state id kind fragment)
  | turnStarted => exact ⟨fun id => (hsil id).symm, rfl, rfl⟩
  | turnCompleted usage => exact ⟨hended _ rfl, rfl, rfl⟩
  | turnAborted reason =>
    cases reason with
    | userInterrupt | error | streamInterrupted => exact ⟨hended _ rfl, rfl, rfl⟩
  | toolRequested id' tool input =>
    refine ⟨fun id => ?_, toolRequested_eq texts state id' tool input⟩
    dsimp only
    rw [statusOf_toolRequested]
    by_cases hid : id' = id
    · rw [if_pos hid, if_pos hid]
    · rw [if_neg hid, if_neg hid, hsil]
  | toolStarted id' tool =>
    refine ⟨fun id => ?_, toolStarted_eq state e.turnId id' tool⟩
    dsimp only
    rw [statusOf_toolStarted]
    by_cases hid : id' = id
    · rw [if_pos hid, if_pos hid]
      cases state.statusOf id with
      | none | some status => rfl
    · rw [if_neg hid, if_neg hid, hsil]
  | toolCompleted id' isError linesAdded linesRemoved =>
    refine ⟨fun id => ?_, rfl, rfl⟩
    refine (Client.statusOf_update (g := fun _ => if isError then .error else .done) _ _ ?_ ?_
      id).trans ?_
    · intro card
      rfl
    · intro card
      rfl
    change (if id' = id then (state.statusOf id).map _ else state.statusOf id) = _
    dsimp only
    by_cases hid : id' = id
    · rw [if_pos hid, if_pos hid]
      cases state.statusOf id with
      | none | some status => rfl
    · rw [if_neg hid, if_neg hid, hsil]
  | turnFailed message =>
    dsimp only
    split_ifs
    · exact ⟨hended _ rfl, rfl, rfl⟩
    · exact hsame _ ⟨rfl, rfl, rfl⟩
  | permissionRequest request requests expiresAt | permissionResolved
  | askRequest request requests expiresAt | askResolved | permissionMode mode =>
    dsimp only
    split_ifs
    all_goals exact hsame _ ⟨rfl, rfl, rfl⟩
  | sessionAttached =>
    dsimp only
    rw [if_neg fun hkind => he ⟨hkind, hevent⟩]
    exact hsame _ ⟨rfl, rfl, rfl⟩
  | _ => exact hsame _ ⟨rfl, rfl, rfl⟩

/-! ### Messages and positions -/

/-- Events that a subagent has forwarded leave the messages and the positions as they are. -/
theorem messages_reduceBubbledEvent (state : ChatState) (e : Envelope) :
  (reduceBubbledEvent state e).messages = state.messages ∧
    (reduceBubbledEvent state e).nextSeq = state.nextSeq
  := by
  unfold reduceBubbledEvent
  cases e.parentTurnId with
  | none => exact ⟨rfl, rfl⟩
  | some parentTurnId =>
  dsimp only
  split_ifs
  · exact ⟨rfl, rfl⟩
  cases e.event with
  | toolCompleted id isError linesAdded linesRemoved =>
    dsimp only
    cases state.subagents parentTurnId with
    | none | some current => exact ⟨rfl, rfl⟩
  | _ => exact ⟨rfl, rfl⟩

/-- The messages after an envelope. -/
theorem messages_reduceEnvelope (state : ChatState) (e : Envelope) :
  (reduceEnvelope texts state e).messages =
    if e.forwarded then state.messages
    else
      match e.event with
      | .messageAppended id role content => (messageAppended state id role content).messages
      | .streamDelta id kind fragment => (streamDelta state id kind fragment).messages
      | .streamCompleted id =>
        state.messages.map fun message =>
          if message.id = id then { message with streaming := false } else message
      | .sessionAttached => if e.kind = .view then [] else state.messages
      | _ => state.messages
  := by
  unfold reduceEnvelope
  by_cases hfwd : e.forwarded
  · rw [if_pos hfwd, if_pos hfwd]
    exact (messages_reduceBubbledEvent state e).1
  rw [if_neg hfwd, if_neg hfwd]
  cases e.event with
  | turnAborted reason =>
    cases reason with
    | userInterrupt | error | streamInterrupted => rfl
  | toolRequested id tool input =>
    dsimp only [toolRequested]
    split_ifs
    all_goals rfl
  | toolStarted id tool =>
    dsimp only [toolStarted]
    split_ifs
    all_goals rfl
  | turnFailed message | permissionRequest request requests expiresAt | permissionResolved
  | askRequest request requests expiresAt | askResolved | permissionMode mode
  | sessionAttached =>
    dsimp only
    split_ifs
    all_goals rfl
  | _ => rfl

/-- The id of a message and its position. -/
def ChatMessage.key (message : ChatMessage) : String × ℕ :=
  (message.id, message.seq)

/-- The id of a card and its position. -/
def ToolCard.key (card : ToolCard) : String × ℕ :=
  (card.toolUseId, card.seq)

/-- An envelope clears a state, leaves the positions as they are while messages may go, or puts a
message or a card that was not there at the next position. -/
inductive Moves (state state' : ChatState) : Prop
  | cleared (hmsgs : state'.messages = []) (htools : state'.tools = [])
    (hnext : state'.nextSeq = 1)
  | kept (hmsgs : state'.messages.map ChatMessage.key <+ state.messages.map ChatMessage.key)
    (htools : state'.tools.map ToolCard.key = state.tools.map ToolCard.key)
    (hnext : state'.nextSeq = state.nextSeq)
  | said (id : String) (base : List ChatMessage) (hnew : ∀ message ∈ state.messages, message.id ≠ id)
    (hbase : base <+ state.messages) (hmsgs : state'.messages.map ChatMessage.key =
      base.map ChatMessage.key ++ [(id, state.nextSeq)])
    (htools : state'.tools = state.tools) (hnext : state'.nextSeq = state.nextSeq + 1)
  | called (id : String) (hnew : ∀ card ∈ state.tools, card.toolUseId ≠ id)
    (hmsgs : state'.messages = state.messages)
    (htools : state'.tools.map ToolCard.key = state.tools.map ToolCard.key ++ [(id, state.nextSeq)])
    (hnext : state'.nextSeq = state.nextSeq + 1)

/-- What leaves the messages, the cards and the positions as they are. -/
theorem Moves.of_same {state state' : ChatState} (hmsgs : state'.messages = state.messages)
    (htools : state'.tools = state.tools) (hnext : state'.nextSeq = state.nextSeq) :
  Moves state state'
  := by
  apply Moves.kept
  · rw [hmsgs]
  · rw [htools]
  · exact hnext

/-- A card is changed or added. -/
theorem moves_upsert (state : ChatState) {id : String} {f : ToolCard → ToolCard} {card : ToolCard}
    (hcard : card.key = (id, state.nextSeq)) (hf : ∀ card, (f card).key = card.key) :
  Moves state
    (if state.tools.any fun card => card.toolUseId = id then state.update id f else state.add card)
  := by
  split_ifs with hknown
  · apply Moves.kept
    · exact Sublist.refl _
    · apply map_key
      intro card
      split_ifs
      · exact hf card
      · rfl
    · rfl
  apply Moves.called id (ne_of_not_any hknown)
  · rfl
  · simp [ChatState.add, hcard]
  · rfl

/-- A complete message is changed or added, and echoes may go. -/
theorem moves_messageAppended (state : ChatState) (id : String) (role : Role)
    (content : List ContentPart) :
  Moves state (messageAppended state id role content)
  := by
  have hbase : (if role = .user then state.messages.filter fun message => !message.isLocal
      else state.messages) <+ state.messages := by
    split_ifs
    · apply filter_sublist
    · exact Sublist.refl _
  unfold messageAppended
  dsimp only
  by_cases hknown : (state.messages.any fun message => message.id = id)
  · rw [if_neg (by simp [hknown])]
    apply Moves.kept
    · dsimp only
      rw [if_pos hknown, map_key]
      · exact hbase.map _
      · intro message
        split_ifs
        all_goals rfl
    · rfl
    · exact if_pos hknown
  by_cases hsil : ((!state.messages.any fun message => message.id = id) = true ∧
      textOfContent content = "" ∧ imagesOfContent content = [])
  · rw [if_pos (by simpa [and_assoc] using hsil)]
    apply Moves.of_same
    all_goals rfl
  rw [if_neg (by simpa [and_assoc] using hsil)]
  apply Moves.said id _ (ne_of_not_any hknown) hbase
  · dsimp only
    rw [if_neg hknown, map_append]
    rfl
  · rfl
  · exact if_neg hknown

/-- A fragment of a message changes it or adds it. -/
theorem moves_streamDelta (state : ChatState) (id : String) (kind : DeltaKind) (fragment : String) :
  Moves state (streamDelta state id kind fragment)
  := by
  unfold streamDelta
  by_cases hkind : kind ≠ .text
  · rw [if_pos hkind]
    apply Moves.of_same
    all_goals rfl
  rw [if_neg hkind]
  by_cases hknown : (state.messages.any fun message => message.id = id)
  · apply Moves.kept
    · dsimp only
      rw [if_pos hknown, map_key]
      intro message
      split_ifs
      all_goals rfl
    · rfl
    · exact if_pos hknown
  apply Moves.said id _ (ne_of_not_any hknown) (Sublist.refl _)
  · dsimp only
    rw [if_neg hknown, map_append]
    rfl
  · rfl
  · exact if_neg hknown

/-- Every envelope moves a state. -/
theorem moves_reduceEnvelope (texts : Texts) (state : ChatState) (e : Envelope) :
  Moves state (reduceEnvelope texts state e)
  := by
  have hsettle : ∀ state' : ChatState, state'.messages = state.messages →
      state'.tools = settleRunningTools state → state'.nextSeq = state.nextSeq →
      Moves state state' := by
    intro state' hmsgs htools hnext
    apply Moves.kept
    · rw [hmsgs]
    · rw [htools, settleRunningTools_eq, map_key]
      intro card
      split_ifs
      all_goals rfl
    · exact hnext
  unfold reduceEnvelope
  by_cases hfwd : e.forwarded
  · rw [if_pos hfwd]
    obtain ⟨hmsgs, hnext⟩ := messages_reduceBubbledEvent state e
    exact .of_same hmsgs (reduceBubbledEvent_eq state e).1 hnext
  rw [if_neg hfwd]
  cases e.event with
  | messageAppended id role content => exact moves_messageAppended state id role content
  | streamDelta id kind fragment => exact moves_streamDelta state id kind fragment
  | streamCompleted id =>
    apply Moves.kept
    · dsimp only
      rw [map_key]
      intro message
      split_ifs
      all_goals rfl
    · rfl
    · rfl
  | turnCompleted usage => exact hsettle _ rfl rfl rfl
  | turnAborted reason =>
    cases reason with
    | userInterrupt | error | streamInterrupted => exact hsettle _ rfl rfl rfl
  | toolRequested id tool input =>
    dsimp only [toolRequested]
    split
    all_goals
      apply moves_upsert
      · rfl
      · exact fun _ => rfl
  | toolStarted id tool =>
    apply moves_upsert
    · rfl
    · exact fun _ => rfl
  | toolCompleted id isError linesAdded linesRemoved =>
    apply Moves.kept
    · exact Sublist.refl _
    · apply map_key
      intro card
      by_cases hid : card.toolUseId = id
      · rw [if_pos hid]
        rfl
      · rw [if_neg hid]
    · rfl
  | turnFailed message =>
    dsimp only
    split
    · exact hsettle _ rfl rfl rfl
    · exact .of_same rfl rfl rfl
  | permissionRequest request requests expiresAt | permissionResolved
  | askRequest request requests expiresAt | askResolved | permissionMode mode =>
    dsimp only
    split
    all_goals exact .of_same rfl rfl rfl
  | sessionAttached =>
    dsimp only
    split
    · exact .cleared rfl rfl rfl
    · exact .of_same rfl rfl rfl
  | _ => exact .of_same rfl rfl rfl

/-- The ids of the cards are different. -/
def ChatState.Distinct (state : ChatState) : Prop :=
  (state.tools.map ToolCard.toolUseId).Nodup

/-- The cards have different ids after an envelope. -/
theorem distinct_reduceEnvelope {state : ChatState} (h : state.Distinct) (e : Envelope) :
  (reduceEnvelope texts state e).Distinct
  := by
  have hids : ∀ tools : List ToolCard, tools.map ToolCard.toolUseId =
      (tools.map ToolCard.key).map Prod.fst := by
    intro tools
    rw [map_map]
    rfl
  rw [ChatState.Distinct, hids] at h ⊢
  cases moves_reduceEnvelope texts state e with
  | cleared _ htools _ =>
    rw [htools]
    exact nodup_nil
  | kept _ htools _ =>
    rw [htools]
    exact h
  | said _ _ _ _ _ htools _ =>
    rw [htools]
    exact h
  | called id hnew _ htools _ =>
  rw [htools, map_append, map_singleton, nodup_append_comm, singleton_append, nodup_cons]
  refine ⟨?_, h⟩
  rw [← hids, mem_map]
  rintro ⟨card, hcard, hid⟩
  exact hnew card hcard hid

/-- The cards have different ids after a list of envelopes. -/
theorem distinct_run (texts : Texts) (es : List Envelope) :
  (run texts es).Distinct
  := by
  induction es using List.reverseRecOn with
  | nil => exact nodup_nil
  | append_singleton es e ih =>
    rw [run, foldl_concat]
    exact distinct_reduceEnvelope ih e

/-- The status of a call after a list of envelopes. -/
theorem statusOf_run {es : List Envelope} (hes : ∀ e ∈ es, ¬ e.attaches) (id : String) :
  (run texts es).statusOf id = (es.map fun e => e.signal id).foldl step none
  := by
  induction es using List.reverseRecOn with
  | nil => rfl
  | append_singleton es e ih =>
  rw [run, foldl_concat, map_append, map_singleton, foldl_concat]
  have hlast := hes e (mem_append_right _ mem_cons_self)
  have hpre := ih fun e' he' => hes e' (mem_append_left _ he')
  rw [(reduceEnvelope_spec hlast).1, ← hpre]
  rfl

/-- Whether a turn is running and was interrupted after a list of envelopes. -/
theorem turn_run {texts : Texts} {es : List Envelope} (hes : ∀ e ∈ es, ¬ e.attaches) :
  (run texts es).turn = es.foldl (fun turn e => e.turn turn) .idle ∧
    (run texts es).interrupted = es.foldl (fun interrupted e => e.interrupted interrupted) false
  := by
  induction es using List.reverseRecOn with
  | nil => exact ⟨rfl, rfl⟩
  | append_singleton es e ih =>
  have hlast := hes e (mem_append_right _ mem_cons_self)
  obtain ⟨hturn, hint⟩ := ih fun e' he' => hes e' (mem_append_left _ he')
  rw [foldl_concat, foldl_concat, ← hturn, ← hint, run, foldl_concat]
  exact (reduceEnvelope_spec hlast).2

end SessionStream

end Client
