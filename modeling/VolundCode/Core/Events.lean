import VolundCode.Core.Session

/-!
# Events

The events a session emits, with the contracts their payloads meet on the bus and in the log.
-/

namespace Core

open ProviderKit

/-! ### Contracts of values -/

/-- A JSON number this large is read as infinity. -/
def overflows (d : Decimal) : Bool :=
  decide ((2 : ℚ) ^ 1024 - 2 ^ 970 ≤ |d.toRat|)

mutual

/-- `jsonValueSchema`: every number is finite. -/
def jsonConforms : Json → Bool
  | .null => true
  | .bool _ => true
  | .num d => !overflows d
  | .str _ => true
  | .arr xs => elementsConform xs
  | .obj ms => membersConform ms

/-- Every element of an array conforms. -/
def elementsConform : List Json → Bool
  | [] => true
  | x :: xs => jsonConforms x && elementsConform xs

/-- Every member of an object conforms. -/
def membersConform : List (String × Json) → Bool
  | [] => true
  | m :: ms => jsonConforms m.2 && membersConform ms

end

/-- The schema of a count: a safe integer that is not negative. -/
def isCount (x : ℚ) : Bool :=
  decide (x.den = 1 ∧ 0 ≤ x ∧ x ≤ 2 ^ 53 - 1)

/-- `usageSchema`. -/
def usageConforms (u : Usage) : Bool :=
  isCount u.input && isCount u.output && u.cacheRead.all isCount && u.cacheWrite.all isCount &&
    u.costUSD.all fun cost => decide (0 ≤ cost)

/-- `attachmentRefSchema`: the bytes of an attachment are not in events. -/
def refConforms : AttachmentRef → Bool
  | .inline _ => false
  | .path _ => true
  | .handle _ => true

mutual

/-- `contentPartSchema`. -/
def contentConforms : ContentPart → Bool
  | .text _ => true
  | .thinking _ _ => true
  | .image source _ => refConforms source
  | .file source _ _ => refConforms source
  | .toolUse _ _ input => jsonConforms input
  | .toolResult _ content _ => contentsConform content

/-- Every part of the content of a message conforms. -/
def contentsConform : List ContentPart → Bool
  | [] => true
  | part :: parts => contentConforms part && contentsConform parts

end

theorem contentsConform_iff {parts : List ContentPart} :
  contentsConform parts ↔ ∀ part ∈ parts, contentConforms part
  := by
  induction parts with
  | nil => simp [contentsConform]
  | cons part parts ih => simp [contentsConform, ih]

/-! ### Payloads -/

inductive DeltaKind where
  | text
  | thinking
  | toolUse
  deriving DecidableEq, Repr

inductive AbortReason where
  | userInterrupt
  | error
  | streamInterrupted
  deriving DecidableEq, Repr

inductive TaskFailure where
  | error
  | interrupted
  deriving DecidableEq, Repr

/-- The run of a task a session was started for. -/
structure TaskRun where
  taskId : String
  runId : String
  scheduledFor : ℚ

inductive BudgetDimension where
  | token
  | cost
  | time
  | toolCall
  deriving DecidableEq, Repr

/-- What a turn had used when its budget was found to be exhausted. -/
structure Consumed where
  input : ℚ
  output : ℚ
  costUSD : ℚ
  timeMs : ℤ
  toolCalls : ℕ

/-- What an error event says of the error. -/
inductive ErrorContext where
  | budget (dimension : BudgetDimension) (message : String) (consumed : Consumed)
      (budget : Budget)
  | loops (loopCount : ℕ) (message : String)
  | interruption (reason : String) (hadPartialToolUse : Bool)
  | reason (reason : String)
  | failure (message : String) (provider model : Option String)

/-- The events that neither the runner emits nor a replay reads. -/
inductive PlainEvent where
  | sessionEnded
  | sessionResumed
  | toolPermissionAsked
  | shellBackgroundStarted
  | shellBackgroundExited
  | subagentDispatched
  | subagentSettled
  | reflectionScheduled
  | reflectionStarted
  | reflectionCompleted
  | reflectionFailed
  | reflectionSkipped
  | reflectionPromoted
  deriving DecidableEq, Repr

/-- The payload of an event, which also says which event it is. -/
inductive Payload where
  | sessionStarted (cwd : String) (configHash volundVersion : Option String)
  | sessionModelChanged (model : String)
  | turnStarted (turnId : String) (parentTurnId agentType : Option String)
  | turnCompleted (turnId : String) (usage : Usage) (stopReason : Option StopReason)
  | turnAborted (turnId : String) (reason : AbortReason)
  | messageAppended (messageId : String) (role : Role) (content : List ContentPart)
  | streamStarted (messageId : String) (provider model : Option String)
  | streamDelta (messageId : String) (kind : DeltaKind) (fragment : String)
  | streamCompleted (messageId : String) (usage : Option Usage)
  | toolRequested (toolUseId tool : String) (input : Json)
  | toolStarted (toolUseId tool : String)
  | toolCompleted (toolUseId tool : String) (isError : Bool)
      (durationMs linesAdded linesRemoved : Option ℚ)
  | contextCompacted (before after : ℚ) (strategy : Option String)
      (removedMessageIds : Option (List String))
  | routerSwitched (source : String) (target : Option String) (reason : String)
  | errorRaised (code : String) (context : ErrorContext)
  | taskStarted (task : TaskRun)
  | taskCompleted (task : TaskRun) (durationMs : ℤ)
  | taskFailed (task : TaskRun) (durationMs : ℤ) (reason : TaskFailure)
  | plain (event : PlainEvent)

/-- `taskRunRefSchema`. -/
def TaskRun.conforms (task : TaskRun) : Bool :=
  task.taskId ≠ "" && task.runId ≠ "" && isCount task.scheduledFor

/-- `EVENT_SCHEMAS`: the payload meets the contract of its event. -/
def Payload.conforms : Payload → Bool
  | .sessionStarted cwd _ _ => cwd ≠ ""
  | .sessionModelChanged model => model ≠ ""
  | .turnStarted turnId parentTurnId agentType =>
    turnId ≠ "" && parentTurnId.all (· ≠ "") && agentType.all (· ≠ "")
  | .turnCompleted turnId usage _ => turnId ≠ "" && usageConforms usage
  | .turnAborted turnId _ => turnId ≠ ""
  | .messageAppended messageId _ content => messageId ≠ "" && contentsConform content
  | .streamStarted messageId _ _ => messageId ≠ ""
  | .streamDelta messageId _ _ => messageId ≠ ""
  | .streamCompleted messageId usage => messageId ≠ "" && usage.all usageConforms
  | .toolRequested toolUseId tool input => toolUseId ≠ "" && tool ≠ "" && jsonConforms input
  | .toolStarted toolUseId tool => toolUseId ≠ "" && tool ≠ ""
  | .toolCompleted toolUseId tool _ durationMs linesAdded linesRemoved =>
    toolUseId ≠ "" && tool ≠ "" && durationMs.all isCount && linesAdded.all isCount &&
      linesRemoved.all isCount
  | .contextCompacted before after _ _ => isCount before && isCount after
  | .routerSwitched source _ reason => source ≠ "" && reason ≠ ""
  | .errorRaised code _ => code ≠ ""
  | .taskStarted task => task.conforms
  | .taskCompleted task durationMs => task.conforms && isCount durationMs
  | .taskFailed task durationMs _ => task.conforms && isCount durationMs
  | .plain _ => true

/-- An event on the bus. Events forwarded from a subagent carry the turn it was dispatched from
and its depth. -/
structure CoreEvent where
  id : String
  version : ℕ
  sessionId : String
  turnId : Option String
  parentTurnId : Option String
  parentDepth : Option ℕ
  payload : Payload
  time : ℤ

/-! ### The content of messages in events -/

/-- What stands in an event for an attachment whose bytes are in the message. -/
def omittedAttachment (kind mime : String) : ContentPart :=
  .text s!"[Attachment omitted from event: inline {kind} ({mime}) not referenceable]"

mutual

/-- A part of a message as an event carries it. -/
def toEventPart : ContentPart → ContentPart
  | .toolResult toolUseId content isError => .toolResult toolUseId (toEventContent content) isError
  | .image (.inline _) mime => omittedAttachment "image" mime
  | .file (.inline _) mime _ => omittedAttachment "file" mime
  | part => part

/-- The content of a message as an event carries it. -/
def toEventContent : List ContentPart → List ContentPart
  | [] => []
  | part :: parts => toEventPart part :: toEventContent parts

end

theorem toEventContent_eq_map (parts : List ContentPart) :
  toEventContent parts = parts.map toEventPart
  := by
  induction parts with
  | nil => rfl
  | cons part parts ih => rw [toEventContent, List.map_cons, ih]

mutual

/-- The part and the parts in it have no attachments whose bytes are in the message. -/
def referenced : ContentPart → Bool
  | .toolResult _ content _ => allReferenced content
  | .image source _ => refConforms source
  | .file source _ _ => refConforms source
  | _ => true

/-- No attachment of the parts has its bytes in the message. -/
def allReferenced : List ContentPart → Bool
  | [] => true
  | part :: parts => referenced part && allReferenced parts

end

mutual

/-- A part without inline attachments is carried as it is. -/
theorem toEventPart_of_referenced : ∀ {part : ContentPart}, referenced part →
  toEventPart part = part
  | .text _, _ | .thinking _ _, _ | .image (.path _) _, _ | .image (.handle _) _, _
  | .file (.path _) _ _, _ | .file (.handle _) _ _, _ | .toolUse _ _ _, _ => rfl
  | .toolResult toolUseId content isError, h => by
    have hcont : toEventContent content = content := toEventContent_of_referenced h
    rw [toEventPart, hcont]

/-- Content without inline attachments is carried as it is. -/
theorem toEventContent_of_referenced : ∀ {parts : List ContentPart}, allReferenced parts →
  toEventContent parts = parts
  | [], _ => rfl
  | part :: parts, h => by
    rw [allReferenced, Bool.and_eq_true] at h
    rw [toEventContent, toEventPart_of_referenced h.1, toEventContent_of_referenced h.2]

end

end Core
