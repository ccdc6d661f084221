import Mathlib.Data.Rat.Floor
import Mathlib.Logic.Function.Basic

/-!
# Tunable parameters

The parameters that are tuned while the program runs, each in a namespace: those of the context,
which have bounds and depend on each other, and those of the router, of retries and of the time
that tools may take. Every adjustment is recorded with the value before and after it.

The values of the context parameters are valid together (`Valid`), and the defaults are
(`defaults_valid`). An adjustment is first limited to a step (`clamp`), and then to the bounds
(`clampContextValue`).
-/

namespace Core

namespace Evolution

/-! ### Parameters -/

/-- The parameters of the context. -/
inductive ContextTunableParam where
  | compactionThreshold
  | targetRatio
  | keepRecent
  | summaryKeepRecent
deriving DecidableEq

/-- The namespaces of the parameters. -/
inductive Namespace where
  | context
  | router
  | retry
  | toolTimeout
deriving DecidableEq

/-- The parameters of all namespaces. -/
inductive Param where
  | context (p : ContextTunableParam)
  | cooldownMs
  | maxAttempts
  | maxRetries
  | backoffFactor
  | defaultTimeoutMs
  | tool (name : String)
deriving DecidableEq

/-- The namespace of a parameter. -/
def Param.namespace : Param → Namespace
  | .context _ => .context
  | .cooldownMs => .router
  | .maxAttempts => .router
  | .maxRetries => .retry
  | .backoffFactor => .retry
  | .defaultTimeoutMs => .toolTimeout
  | .tool _ => .toolTimeout

/-- The values of the context parameters. -/
abbrev Snapshot : Type := ContextTunableParam → ℚ

/-- The default values of the context parameters. -/
def contextDefaults : Snapshot
  | .compactionThreshold => 85 / 100
  | .targetRatio => 60 / 100
  | .keepRecent => 20
  | .summaryKeepRecent => 20

/-- Between which values a parameter stays, and whether it is an integer. -/
structure ContextTunableBound where
  min : ℚ
  max : ℚ
  integer : Bool

/-- The bounds of the context parameters. -/
def contextBounds : ContextTunableParam → ContextTunableBound
  | .compactionThreshold => { min := 65 / 100, max := 95 / 100, integer := false }
  | .targetRatio => { min := 45 / 100, max := 75 / 100, integer := false }
  | .keepRecent => { min := 15, max := 25, integer := true }
  | .summaryKeepRecent => { min := 15, max := 25, integer := true }

/-- All context parameters. -/
def contextParams : List ContextTunableParam :=
  [.compactionThreshold, .targetRatio, .keepRecent, .summaryKeepRecent]

theorem mem_contextParams (p : ContextTunableParam) :
  p ∈ contextParams
  := by
  cases p with
  | compactionThreshold | targetRatio | keepRecent | summaryKeepRecent => decide

/-- The value is within the bounds of the parameter. -/
def isContextTunableValue (p : ContextTunableParam) (value : ℚ) : Bool :=
  let bound := contextBounds p
  decide (bound.min ≤ value) && decide (value ≤ bound.max) && (!bound.integer || value.den == 1)

/-- All values are within their bounds, and there is room between the ratio aimed at and the
threshold. -/
def isValidContextTuningSnapshot (value : Snapshot) : Bool :=
  (contextParams.all fun p => isContextTunableValue p (value p)) &&
    decide (value .targetRatio + 1 / 10 ≤ value .compactionThreshold)

/-- The values are valid together. -/
def Valid (value : Snapshot) : Prop :=
  isValidContextTuningSnapshot value

instance Valid.decidable (value : Snapshot) :
  Decidable (Valid value)
  := inferInstanceAs (Decidable (_ = true))

theorem defaults_valid :
  Valid contextDefaults
  := by
  decide +kernel

/-- Each of the values is within its bounds. -/
theorem Valid.value {value : Snapshot} (h : Valid value) (p : ContextTunableParam) :
  isContextTunableValue p (value p)
  := by
  rw [Valid, isValidContextTuningSnapshot, Bool.and_eq_true, List.all_eq_true] at h
  exact h.1 p (mem_contextParams p)

/-! ### Records -/

/-- What is measured, each under its name. -/
abbrev Signal : Type := List (String × ℚ)

/-- What becomes of the parameter. -/
inductive EvolutionAction where
  | adjusted
  | rolledBack
  | stopped
  | confirmationRejected
deriving DecidableEq

/-- The record of an adjustment. -/
structure EvolutionRecord where
  param : Param
  before : ℚ
  after : ℚ
  time : ℤ
  reason : String
  signal : Signal
  action : EvolutionAction

/-! ### Steps -/

/-- `x.toFixed(4)`, as a number. A number between two of four decimals goes to the one farther from
zero. -/
def toFixed (x : ℚ) : ℚ :=
  if x < 0 then -(⌊-x * 10000 + 1 / 2⌋ / 10000) else ⌊x * 10000 + 1 / 2⌋ / 10000

/-- `Math.round(x)`. -/
def round (x : ℚ) : ℚ :=
  ⌊x + 1 / 2⌋

/-- How far a parameter may go in one step, if this is limited. -/
def fixedStep : Param → Option ℚ
  | .defaultTimeoutMs => some 10000
  | .tool _ => some 10000
  | .maxRetries => some 1
  | .maxAttempts => some 1
  | .context .keepRecent => some 2
  | .context .summaryKeepRecent => some 2
  | .context .compactionThreshold => some (5 / 100)
  | .context .targetRatio => some (5 / 100)
  | .cooldownMs => none
  | .backoffFactor => none

/-- The value after one step towards what is proposed, of at most a tenth of the value before. -/
def clamp (param : Param) (before proposed : ℚ) : ℚ :=
  let tenth := |before * (1 / 10)|
  let max := (fixedStep param).elim tenth fun step => min step tenth
  let delta := Max.max (-max) (min max (proposed - before))
  let value := toFixed (before + delta)
  match param.namespace with
  | .toolTimeout => min 300000 (Max.max 1000 value)
  | _ => value

/-- The value within the bounds of the parameter, and with room between the ratio and the
threshold. -/
def clampContextValue (p : ContextTunableParam) (value : ℚ) (snapshot : Snapshot) : ℚ :=
  let bound := contextBounds p
  let min := if p = .compactionThreshold then max bound.min (snapshot .targetRatio + 1 / 10)
    else bound.min
  let max := if p = .targetRatio then Min.min bound.max (snapshot .compactionThreshold - 1 / 10)
    else bound.max
  let bounded := Max.max min (Min.min max value)
  if bound.integer then round bounded else toFixed bounded

end Evolution

end Core
