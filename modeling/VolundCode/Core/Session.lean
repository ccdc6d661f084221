import VolundCode.ProviderKit.Message

/-!
# Sessions

The state of a session: its messages, its turns and what it has used. Spending adds up as a
commutative monoid, so that totals over turns can be compared.
-/

namespace Core

open ProviderKit

/-! ### Usage -/

/-- What model calls used in all, by kind. -/
@[ext]
structure Spending where
  input : ℚ
  output : ℚ
  cacheRead : ℚ
  cacheWrite : ℚ
  costUSD : ℚ
  deriving DecidableEq

namespace Spending

instance : Zero Spending :=
  ⟨⟨0, 0, 0, 0, 0⟩⟩

instance : Add Spending :=
  ⟨fun a b => ⟨a.input + b.input, a.output + b.output, a.cacheRead + b.cacheRead,
    a.cacheWrite + b.cacheWrite, a.costUSD + b.costUSD⟩⟩

@[simp]
theorem zero_def :
  (0 : Spending) = ⟨0, 0, 0, 0, 0⟩
  := rfl

@[simp]
theorem add_def (a b : Spending) :
  a + b = ⟨a.input + b.input, a.output + b.output, a.cacheRead + b.cacheRead,
    a.cacheWrite + b.cacheWrite, a.costUSD + b.costUSD⟩
  := rfl

instance : AddCommMonoid Spending where
  add_assoc a b c := by simp [add_assoc]
  zero_add a := by simp
  add_zero a := by simp
  add_comm a b := by simp [add_comm]
  nsmul := nsmulRec

/-- The usage of a model call, what it leaves out counted as none. -/
def ofUsage (usage : Usage) : Spending where
  input := usage.input
  output := usage.output
  cacheRead := usage.cacheRead.getD 0
  cacheWrite := usage.cacheWrite.getD 0
  costUSD := usage.costUSD.getD 0

/-- Spending as the usage an event reports. -/
def toUsage (s : Spending) : Usage where
  input := s.input
  output := s.output
  cacheRead := some s.cacheRead
  cacheWrite := some s.cacheWrite
  costUSD := some s.costUSD

@[simp]
theorem ofUsage_toUsage (s : Spending) :
  ofUsage s.toUsage = s
  := rfl

end Spending

/-- What a session used. -/
structure CumulativeUsage where
  input : ℚ
  output : ℚ
  cacheRead : Option ℚ
  cacheWrite : Option ℚ
  costUSD : ℚ

namespace CumulativeUsage

/-- The usage of a session as spending, what is missing counted as none. -/
def spending (u : CumulativeUsage) : Spending where
  input := u.input
  output := u.output
  cacheRead := u.cacheRead.getD 0
  cacheWrite := u.cacheWrite.getD 0
  costUSD := u.costUSD

/-- The usage of a session after one more use. -/
def add (u : CumulativeUsage) (usage : Usage) : CumulativeUsage where
  input := u.input + usage.input
  output := u.output + usage.output
  cacheRead := some (u.cacheRead.getD 0 + usage.cacheRead.getD 0)
  cacheWrite := some (u.cacheWrite.getD 0 + usage.cacheWrite.getD 0)
  costUSD := u.costUSD + usage.costUSD.getD 0

@[simp]
theorem spending_add (u : CumulativeUsage) (usage : Usage) :
  (u.add usage).spending = u.spending + Spending.ofUsage usage
  := rfl

end CumulativeUsage

/-! ### Session state -/

/-- Where a session stands below the session that dispatched it. -/
structure Lineage where
  depth : ℕ
  parentSessionId : Option String
  parentTurnId : Option String
  agentType : Option String
  rootSessionId : Option String

/-- The lineage of a session nobody dispatched. -/
def Lineage.root (id : String) : Lineage where
  depth := 0
  parentSessionId := none
  parentTurnId := none
  agentType := none
  rootSessionId := some id

/-- What a turn may use. -/
structure Budget where
  tokenMax : Option ℚ
  costUSDMax : Option ℚ
  timeMsMax : Option ℚ
  toolCallMax : Option ℚ

inductive TurnStatus where
  | streaming
  | compacting
  | awaitingTool
  | awaitingUser
  | done
  | aborted
  | error
  deriving DecidableEq, Repr

structure Turn where
  id : String
  startMessageId : String
  status : TurnStatus
  parentDepth : ℕ
  parentTurnId : Option String
  agentType : Option String

structure ContextBudget where
  maxTokens : ℚ
  currentTokens : ℚ

structure SessionState where
  id : String
  cwd : String
  createdAt : ℤ
  version : ℕ
  messages : List Message
  turns : List Turn
  activeTurn : Option String
  cumulativeUsage : CumulativeUsage
  contextBudget : ContextBudget
  toolRegistrySnapshot : String
  pendingInterrupt : Bool
  systemPromptSnapshot : Option String
  model : Option String
  lineage : Lineage
  resourceBudget : Option Budget

/-- A session before its first turn. -/
def createSession (id cwd : String) (maxTokens : ℚ) (toolRegistrySnapshot : String)
    (lineage : Option Lineage) (resourceBudget : Option Budget) (now : ℤ) : SessionState where
  id := id
  cwd := cwd
  createdAt := now
  version := 0
  messages := []
  turns := []
  activeTurn := none
  cumulativeUsage :=
    { input := 0, output := 0, cacheRead := none, cacheWrite := none, costUSD := 0 }
  contextBudget := { maxTokens := maxTokens, currentTokens := 0 }
  toolRegistrySnapshot := toolRegistrySnapshot
  pendingInterrupt := false
  systemPromptSnapshot := none
  model := none
  lineage :=
    match lineage with
    | some l => { l with rootSessionId := some (l.rootSessionId.getD id) }
    | none => Lineage.root id
  resourceBudget := resourceBudget

/-- A change of the state, which counts as a new version of it. -/
def updateSession (s : SessionState) (recipe : SessionState → SessionState) : SessionState :=
  { recipe s with version := s.version + 1 }

/-- Gives the first turn with the id the status. -/
def setStatus (turnId : String) (status : TurnStatus) : List Turn → List Turn
  | [] => []
  | turn :: turns =>
    if turn.id = turnId then { turn with status := status } :: turns
    else turn :: setStatus turnId status turns

/-- Giving a turn a status changes no id. -/
@[simp]
theorem map_id_setStatus (turnId : String) (status : TurnStatus) (turns : List Turn) :
  (setStatus turnId status turns).map Turn.id = turns.map Turn.id
  := by
  induction turns with
  | nil => rfl
  | cons turn turns ih =>
  rw [setStatus]
  split_ifs
  · rfl
  · rw [List.map_cons, List.map_cons, ih]

end Core
