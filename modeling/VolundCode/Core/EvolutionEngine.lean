import VolundCode.Lib.Run
import VolundCode.Storage.EvolutionStore

/-!
# The engine of adjustments

The engine adjusts parameters step by step, and has its records appended by the store. An
adjustment far from the default needs to be confirmed, and otherwise the parameter goes back to the
default for good. After an adjustment it is validated whether things got worse. If so, the
adjustment is rolled back, and after several times in a row the parameter is stopped.

The engine remembers the last adjustment of each parameter, how many times in a row things got
worse, and what is stopped. A new engine reads this from the audit log.
-/

namespace Core

namespace EvolutionEngine

open Evolution
open Storage.EvolutionStore (Refusal)

/-- The state of the store. -/
abbrev Store : Type := Storage.EvolutionStore.State

/-! ### State -/

/-- How the engine works. -/
structure Options where
  enabled : Bool
  namespaces : List Namespace
  sampleWindow : ℕ
  worsenStreakLimit : ℕ
  confirmationDeviation : ℚ
  toolTimeoutDefaults : String → Option ℚ

/-- How the engine works when it is enabled and nothing else is said. -/
def Options.default : Options where
  enabled := true
  namespaces := [.context, .router, .retry, .toolTimeout]
  sampleWindow := 20
  worsenStreakLimit := 3
  confirmationDeviation := 25 / 100
  toolTimeoutDefaults := fun _ => none

/-- What the engine remembers. -/
structure Engine where
  windows : Namespace → List Signal
  last : Param → Option EvolutionRecord
  worsen : Param → ℕ
  stopped : Param → Bool
  restored : Bool

/-- A new engine. -/
def Engine.fresh : Engine where
  windows := fun _ => []
  last := fun _ => none
  worsen := fun _ => 0
  stopped := fun _ => false
  restored := false

/-- The engine has the store append a record. -/
structure Attempt where
  store : Store
  record : EvolutionRecord

/-- The engine and the store, with all that the engine has the store append. -/
structure World where
  engine : Engine
  store : Store
  attempts : List Attempt

/-- A new engine over a store. -/
def World.start (store : Store) : World where
  engine := Engine.fresh
  store := store
  attempts := []

/-- What a call returns, or why the store refuses a record of it. -/
abbrev Result : Type := Except Refusal (Option EvolutionRecord)

/-! ### Restoring -/

/-- What the engine remembers after a record. -/
def restoreRecord (engine : Engine) (record : EvolutionRecord) : Engine :=
  if record.param.namespace = .context then
    match record.action with
    | .adjusted => { engine with last := Function.update engine.last record.param (some record) }
    | .rolledBack =>
      { engine with
        worsen := Function.update engine.worsen record.param (engine.worsen record.param + 1) }
    | .stopped => { engine with stopped := Function.update engine.stopped record.param true }
    | .confirmationRejected =>
      { engine with stopped := Function.update engine.stopped record.param true }
  else engine

/-- What the engine remembers after the records of the audit log. -/
def restoreAll (engine : Engine) (audit : List EvolutionRecord) : Engine :=
  audit.foldl restoreRecord engine

/-- The audit log is read, unless it has been. -/
def World.restore (w : World) : World :=
  if w.engine.restored then w
  else
    { w with
      engine := { restoreAll w.engine (w.store.audit.map Subtype.val) with restored := true } }

/-! ### Values -/

variable (o : Options)

/-- The namespace is one of those in which parameters are adjusted. -/
def Options.isEnabled (ns : Namespace) : Bool :=
  o.enabled && o.namespaces.contains ns

/-- The name of a tool is one with a parameter. -/
def allowed : Param → Bool
  | .tool name =>
    name ≠ "" && name.toList.all fun c => c.isAlphanum || ['_', '.', ':', '-'].contains c
  | _ => true

/-- The default value of a parameter, if it has one. -/
def Options.defaultOf : Param → Option ℚ
  | .context p => some (contextDefaults p)
  | .cooldownMs => some 60000
  | .maxAttempts => some 6
  | .maxRetries => some 2
  | .backoffFactor => some 4
  | .defaultTimeoutMs => some 60000
  | .tool name => o.toolTimeoutDefaults name

/-- The values of the context: those persisted, if they are valid. -/
def contextValues (store : Store) : Snapshot :=
  if isValidContextTuningSnapshot store.current then store.current else contextDefaults

/-- The value of a parameter with this default. Only those of the context are persisted ones. -/
def valueOf (store : Store) (param : Param) (defaultValue : ℚ) : ℚ :=
  match param with
  | .context p => contextValues store p
  | _ => defaultValue

/-! ### Proposals -/

/-- The value after a step towards what is proposed. For the context the values have to be valid
with it. -/
def target (store : Store) (param : Param) (before proposed : ℚ) : Option ℚ :=
  match param with
  | .context p =>
    let values := contextValues store
    let after := clampContextValue p (clamp param before proposed) values
    if isValidContextTuningSnapshot (Function.update values p after) then some after else none
  | _ => some (clamp param before proposed)

/-- How far the value is from the default, as a part of it. -/
def deviation (after defaultValue : ℚ) : ℚ :=
  if defaultValue = 0 then 0 else |after - defaultValue| / |defaultValue|

/-- What becomes of a proposal. -/
inductive Decision where
  | dropped
  | adjusted (before after : ℚ)
  | rejected (before defaultValue : ℚ)

/-- What becomes of a proposal, given what is answered if it is to be confirmed. -/
def consider (store : Store) (param : Param) (proposed : ℚ) (confirmed : Bool) : Decision :=
  match o.defaultOf param with
  | none => .dropped
  | some defaultValue =>
    let before := valueOf store param defaultValue
    match target store param before proposed with
    | none => .dropped
    | some after =>
      if after = before then .dropped
      else if o.confirmationDeviation < deviation after defaultValue ∧ confirmed = false then
        .rejected before defaultValue
      else .adjusted before after

/-! ### Calls -/

variable (sanitize : String → String)

/-- The store is to append a record. -/
def World.attempt (w : World) (record : EvolutionRecord) : World :=
  { w with attempts := w.attempts ++ [{ store := w.store, record := record }] }

/-- A record is appended, and the call goes on. The call ends where the record is refused. -/
def World.appending (w : World) (record : EvolutionRecord) (rest : World → Result × World) :
    Result × World :=
  match w.store.append sanitize record with
  | .ok store => rest { w.attempt record with store := store }
  | .error refusal => (.error refusal, w.attempt record)

/-- The parameter is stopped. -/
def World.stop (w : World) (param : Param) : World :=
  { w with engine := { w.engine with stopped := Function.update w.engine.stopped param true } }

/-- The record is the last adjustment of its parameter. -/
def World.setLast (w : World) (record : EvolutionRecord) : World :=
  { w with
    engine := { w.engine with last := Function.update w.engine.last record.param (some record) } }

/-- So many times in a row things got worse. -/
def World.setWorsen (w : World) (param : Param) (streak : ℕ) : World :=
  { w with engine := { w.engine with worsen := Function.update w.engine.worsen param streak } }

/-- The record with which a parameter goes back to its default. -/
def rejectedOf (before defaultValue : ℚ) (param : Param) (reason : String) (signal : Signal)
    (now : ℤ) : EvolutionRecord where
  param := param
  before := before
  after := defaultValue
  time := now
  reason := reason ++ "; cumulative deviation rejected; parameter restored and frozen"
  signal := signal
  action := .confirmationRejected

/-- The record with which a parameter is adjusted. -/
def adjustedOf (before after : ℚ) (param : Param) (reason : String) (signal : Signal) (now : ℤ) :
    EvolutionRecord where
  param := param
  before := before
  after := after
  time := now
  reason := reason
  signal := signal
  action := .adjusted

/-- A proposal that is not confirmed: the parameter goes back to its default, and is stopped. -/
def reject (w : World) (param : Param) (before defaultValue : ℚ) (reason : String)
    (signal : Signal) (now : ℤ) : Result × World :=
  let rejected := rejectedOf before defaultValue param reason signal now
  w.appending sanitize rejected fun w => (.ok (some rejected), w.stop param)

/-- A proposal is followed. -/
def adjust (w : World) (param : Param) (before after : ℚ) (reason : String) (signal : Signal)
    (now : ℤ) : Result × World :=
  let record := adjustedOf before after param reason signal now
  w.appending sanitize record fun w => (.ok (some record), w.setLast record)

/-- A value is proposed for a parameter. -/
def propose (w : World) (param : Param) (proposed : ℚ) (reason : String) (signal : Signal)
    (confirmed : Bool) (now : ℤ) : Result × World :=
  if o.isEnabled param.namespace && allowed param then
    let w := w.restore
    if w.engine.stopped param then (.ok none, w)
    else
      match consider o w.store param proposed confirmed with
      | .dropped => (.ok none, w)
      | .rejected before defaultValue => reject sanitize w param before defaultValue reason signal now
      | .adjusted before after => adjust sanitize w param before after reason signal now
  else (.ok none, w)

/-- Why an adjustment is rolled back. -/
def rollbackReason : String :=
  "validation window worsened; automatic rollback"

/-- Why a parameter is stopped. -/
def stoppedReason : String :=
  "three consecutive worsening validations; automatic tuning stopped"

/-- The record with which an adjustment is rolled back. -/
def rollbackOf (prior : EvolutionRecord) (param : Param) (signal : Signal) (now : ℤ) :
    EvolutionRecord where
  param := param
  before := prior.after
  after := prior.before
  time := now
  reason := rollbackReason
  signal := signal
  action := .rolledBack

/-- The record with which a parameter is stopped. -/
def stoppedOf (value : ℚ) (param : Param) (signal : Signal) (now : ℤ) : EvolutionRecord where
  param := param
  before := value
  after := value
  time := now
  reason := stoppedReason
  signal := signal
  action := .stopped

/-- It is validated whether things got worse after the last adjustment. -/
def validate (w : World) (param : Param) (worsened : Bool) (signal : Signal) (now : ℤ) :
    Result × World :=
  if o.isEnabled param.namespace && allowed param then
    let w := w.restore
    match w.engine.last param, worsened with
    | _, false => (.ok none, w.setWorsen param 0)
    | none, true => (.ok none, w)
    | some prior, true =>
      let streak := w.engine.worsen param + 1
      let rollback := rollbackOf prior param signal now
      (w.setWorsen param streak).appending sanitize rollback fun w =>
        if o.worsenStreakLimit ≤ streak then
          (w.stop param).appending sanitize (stoppedOf rollback.after param signal now) fun w =>
            (.ok (some rollback), w)
        else (.ok (some rollback), w)
  else (.ok none, w)

/-- The number measured under a name, or zero. -/
def measured (signal : Signal) (key : String) : ℚ :=
  ((signal.find? fun entry => entry.1 = key).map Prod.snd).getD 0

/-- The averages of what is measured. -/
def aggregate (bucket : List Signal) : Signal :=
  (bucket.flatMap fun signal => signal.map Prod.fst).eraseDups.map fun key =>
    (key, (bucket.map fun signal => measured signal key).sum / bucket.length)

/-- What is proposed where something is measured too often. -/
structure Proposal where
  param : Param
  proposed : ℚ
  reason : String

/-- What is proposed for the averages. -/
def evaluate (store : Store) (signal : Signal) : Namespace → Option Proposal
  | .context =>
    let values := contextValues store
    if 2 / 10 < measured signal "post_compact_repeat_rate" then
      some
        { param := .context .compactionThreshold
          proposed := values .compactionThreshold + 5 / 100
          reason := "post-compaction repeat rate exceeded 0.2" }
    else if 1 / 10 < measured signal "context_length_error_rate" then
      some
        { param := .context .compactionThreshold
          proposed := values .compactionThreshold - 5 / 100
          reason := "context length error rate exceeded 0.1" }
    else if 2 / 10 < measured signal "immediate_recompact_rate" then
      some
        { param := .context .targetRatio
          proposed := values .targetRatio - 5 / 100
          reason := "immediate recompaction rate exceeded 0.2" }
    else if 2 / 10 < measured signal "keep_outside_window_rate" then
      some
        { param := .context .keepRecent
          proposed := values .keepRecent + 2
          reason := "kept messages frequently fell outside the recent window" }
    else if 2 / 10 < measured signal "summary_recent_loss_rate" then
      some
        { param := .context .summaryKeepRecent
          proposed := values .summaryKeepRecent + 2
          reason := "recent context was frequently lost after summary" }
    else none
  | .router =>
    if 5 / 10 < measured signal "fallback_success_rate" then
      some
        { param := .cooldownMs
          proposed := 60000 - 10000
          reason := "fallback frequently succeeds; reduce cooldown" }
    else none
  | .retry =>
    if 5 / 10 < measured signal "retry_success_rate" then
      some { param := .maxRetries, proposed := 2 + 1, reason := "retries frequently succeed" }
    else if 5 / 10 < measured signal "retry_failure_rate" then
      some { param := .maxRetries, proposed := 2 - 1, reason := "retries frequently fail" }
    else none
  | .toolTimeout =>
    if 2 / 10 < measured signal "timeout_rate" ∧ 2 / 10 < measured signal "user_retry_rate" then
      some
        { param := .defaultTimeoutMs
          proposed := 60000 + 10000
          reason := "tool timeouts are frequently retried by the user" }
    else none

/-- What has been measured, with what is measured now. -/
def bucketOf (w : World) (ns : Namespace) (signal : Signal) : List Signal :=
  w.engine.windows ns ++ [signal]

/-- The window of a namespace. -/
def World.setWindow (w : World) (ns : Namespace) (bucket : List Signal) : World :=
  { w with engine := { w.engine with windows := Function.update w.engine.windows ns bucket } }

/-- What is proposed when this is measured, if the window is full with it. -/
def proposalOf (w : World) (ns : Namespace) (signal : Signal) : Option Proposal :=
  if (bucketOf w ns signal).length < o.sampleWindow then none
  else evaluate w.store (aggregate (bucketOf w ns signal)) ns

/-- Something is measured. -/
def observe (w : World) (ns : Namespace) (signal : Signal) (confirmed : Bool) (now : ℤ) :
    Result × World :=
  if o.isEnabled ns then
    if (bucketOf w ns signal).length < o.sampleWindow then
      (.ok none, w.setWindow ns (bucketOf w ns signal))
    else
      match proposalOf o w ns signal with
      | none => (.ok none, w.setWindow ns [])
      | some proposal =>
        propose o sanitize (w.setWindow ns []) proposal.param proposal.proposed proposal.reason
          (aggregate (bucketOf w ns signal)) confirmed now
  else (.ok none, w)

/-! ### Runs -/

/-- A call, or a record that somebody else has the store append. -/
inductive Action where
  | propose (param : Param) (proposed : ℚ) (reason : String) (signal : Signal) (confirmed : Bool)
      (now : ℤ)
  | observe (ns : Namespace) (signal : Signal) (confirmed : Bool) (now : ℤ)
  | validate (param : Param) (worsened : Bool) (signal : Signal) (now : ℤ)
  | write (record : EvolutionRecord)

/-- The store after somebody else has had it append a record. -/
def World.written (w : World) (record : EvolutionRecord) : World :=
  match w.store.append sanitize record with
  | .ok store => { w with store := store }
  | .error _ => w

/-- The world after an action. -/
def World.after (w : World) : Action → World
  | .propose param proposed reason signal confirmed now =>
    (propose o sanitize w param proposed reason signal confirmed now).2
  | .observe ns signal confirmed now => (observe o sanitize w ns signal confirmed now).2
  | .validate param worsened signal now => (validate o sanitize w param worsened signal now).2
  | .write record => w.written sanitize record

/-- Every action can happen. -/
def step (w : World) (a : Action) : Option World :=
  some (w.after o sanitize a)

end EvolutionEngine

end Core
