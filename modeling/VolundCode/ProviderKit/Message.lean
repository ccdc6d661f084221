import VolundCode.Lib.Json

/-!
# Messages

The messages of a conversation, as providers, context policies and the runner exchange them.
-/

namespace ProviderKit

/-- What a model call used. -/
structure Usage where
  input : ℚ
  output : ℚ
  cacheRead : Option ℚ
  cacheWrite : Option ℚ
  costUSD : Option ℚ
  deriving DecidableEq

inductive AttachmentRef where
  | inline (bytes : List UInt8)
  | path (absPath : String)
  | handle (handle : String)

/-- A part of the content of a message. -/
inductive ContentPart where
  | text (text : String)
  | thinking (text : String) (signature : Option String)
  | image (source : AttachmentRef) (mime : String)
  | file (source : AttachmentRef) (mime filename : String)
  | toolUse (id name : String) (input : Json)
  | toolResult (toolUseId : String) (content : List ContentPart) (isError : Option Bool)

inductive Role where
  | assistant
  | system
  | user
  deriving DecidableEq, Repr

inductive StopReason where
  | endTurn
  | toolUse
  | maxTokens
  | stopSequence
  | error
  deriving DecidableEq, Repr

structure Meta where
  provider : Option String
  model : Option String
  usage : Option Usage
  stopReason : Option StopReason
  compacted : Option Bool
  compactedMessageIds : Option (List String)
  turnId : Option String
  pinnedToContext : Option Bool

/-- What is known about a message of which nothing is known. -/
def Meta.empty : Meta where
  provider := none
  model := none
  usage := none
  stopReason := none
  compacted := none
  compactedMessageIds := none
  turnId := none
  pinnedToContext := none

structure Message where
  id : String
  role : Role
  content : List ContentPart
  createdAt : ℚ
  info : Meta

/-! ### Tool exchanges -/

/-- The id of a tool use. -/
def ContentPart.useId : ContentPart → Option String
  | .toolUse id _ _ => some id
  | _ => none

/-- The id of the tool use a tool result answers. -/
def ContentPart.resultId : ContentPart → Option String
  | .toolResult toolUseId _ _ => some toolUseId
  | _ => none

/-- The ids of the tool uses of a message. -/
def Message.useIds (m : Message) : List String :=
  m.content.filterMap ContentPart.useId

/-- The ids of the tool uses the results of a message answer. -/
def Message.resultIds (m : Message) : List String :=
  m.content.filterMap ContentPart.resultId

/-- The ids of the tool uses of a list of messages. -/
def useIds (ms : List Message) : List String :=
  ms.flatMap Message.useIds

/-- The ids of the tool uses the results of a list of messages answer. -/
def resultIds (ms : List Message) : List String :=
  ms.flatMap Message.resultIds

theorem mem_useIds {ms : List Message} {x : String} :
  x ∈ useIds ms ↔ ∃ m ∈ ms, x ∈ m.useIds
  := List.mem_flatMap

theorem mem_resultIds {ms : List Message} {x : String} :
  x ∈ resultIds ms ↔ ∃ m ∈ ms, x ∈ m.resultIds
  := List.mem_flatMap

end ProviderKit
