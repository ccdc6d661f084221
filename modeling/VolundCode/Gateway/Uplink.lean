import Mathlib.Tactic

/-!
# State over an uplink

The machine tells the gateway which session is active and which requests are pending: once when it
registers, and then at every event of its hub if the state is not the one that it told last. The
gateway also sets the active session itself when a command that changes it is answered.

Here are the machine, the gateway and what is on its way between them; `Converged`, by which they
agree when nothing is; and `Orderly`, the steps of the runs in which they do.
-/

namespace Uplink

/-! ### The machine and the gateway -/

/-- The id of a session, which is not empty. -/
abbrev SessionId :=
  { id : String // id ≠ "" }

/-- What is told: the active session, and the ids of the requests that are pending, in the order of
the queues. -/
structure View where
  active : Option SessionId
  pendingPermissions : List String
  pendingAsks : List String
  deriving DecidableEq

/-- A view in which nothing is active or pending. -/
def View.empty : View where
  active := none
  pendingPermissions := []
  pendingAsks := []

/-- `signatureOf`. -/
def signatureOf (v : View) : String :=
  (v.active.map (·.val)).getD "" ++ "|" ++ ",".intercalate v.pendingPermissions ++ "|" ++
    ",".intercalate v.pendingAsks

/-- The commands that change the active session, and the others. -/
inductive HubRpcMethod where
  | start
  | resume (id : SessionId)
  | closeActive
  | other
  deriving DecidableEq

/-- A frame of the machine. A result says which session is active by it, if the command was one that
changes it and succeeded. -/
inductive MachineFrame where
  | register (v : View)
  | event
  | state (v : View)
  | result (id : ℕ) (method : HubRpcMethod) (active : Option (Option SessionId))
  deriving DecidableEq

inductive GatewayFrame where
  | registered
  | rpc (id : ℕ) (method : HubRpcMethod)
  deriving DecidableEq

/-- How far a command has come: it has been received, the hub has closed its session, if it had one,
or the command is done and its result can be sent. -/
inductive Stage where
  | received
  | closed (had : Bool)
  | done (active : Option (Option SessionId))
  deriving DecidableEq

/-- A command that the machine carries out. -/
structure Call where
  id : ℕ
  method : HubRpcMethod
  stage : Stage
  deriving DecidableEq

/-- The machine with the view of its own hub and the commands that it carries out, the frames on
their way, and the gateway with the view of its remote hub once that is registered, the commands it
has sent, those that have timed out, and the results that are still to be applied. -/
structure World where
  hub : View
  opened : Bool
  forwarding : Bool
  stateSignature : String
  calls : List Call
  toGateway : List MachineFrame
  toMachine : List GatewayFrame
  remote : Option View
  sent : List HubRpcMethod
  timedOut : List ℕ
  applies : List (Option SessionId)
  deriving DecidableEq

/-- A machine that has not opened a connection yet. -/
def World.initial (hub : View) : World where
  hub := hub
  opened := false
  forwarding := false
  stateSignature := ""
  calls := []
  toGateway := []
  toMachine := []
  remote := none
  sent := []
  timedOut := []
  applies := []

/-- `sendRegister`. -/
def World.sendRegister (w : World) : World :=
  if w.opened then w
  else
    { w with
      opened := true
      stateSignature := signatureOf w.hub
      toGateway := [.register w.hub] }

/-- The hub sends an envelope, and the machine forwards it. -/
def World.forward (w : World) : World :=
  if w.forwarding then
    if signatureOf w.hub = w.stateSignature then { w with toGateway := w.toGateway ++ [.event] }
    else
      { w with
        stateSignature := signatureOf w.hub
        toGateway := w.toGateway ++ [.event, .state w.hub] }
  else w

/-- `SessionHub.attach`. -/
def View.attach (v : View) (id : SessionId) : View :=
  { v with active := some id }

/-- `SessionHub.detach`. -/
def View.detach (v : View) : View :=
  { v with active := none }

/-- `PermissionPromptController.request`. -/
def View.requestPermission (v : View) (id : String) : View :=
  { v with pendingPermissions := v.pendingPermissions ++ [id] }

/-- `PermissionPromptController.decide`. -/
def View.decide (v : View) (id : String) : View :=
  { v with pendingPermissions := v.pendingPermissions.eraseP fun p => p = id }

/-- `AskPromptController.request`. -/
def View.requestAsk (v : View) (id : String) : View :=
  { v with pendingAsks := v.pendingAsks ++ [id] }

/-- `AskPromptController.decide`. -/
def View.answerAsk (v : View) (id : String) : View :=
  { v with pendingAsks := v.pendingAsks.eraseP fun p => p = id }

/-- A command goes on. -/
def World.setStage (w : World) (i : ℕ) (stage : Stage) : World :=
  { w with calls := w.calls.modify i fun c => { c with stage := stage } }

/-- What happens: the connection opens; the hub sends an envelope, attaches or detaches a session or
has a request more or less; the gateway sends a command; a frame arrives; a result is applied; a
command times out; and a command that the machine carries out closes the session, activates one,
ends with nothing that the gateway would apply, or is answered. -/
inductive Action where
  | sendRegister
  | event
  | attach (id : SessionId)
  | detach
  | requestPermission (id : String)
  | decide (id : String)
  | requestAsk (id : String)
  | answerAsk (id : String)
  | call (method : HubRpcMethod)
  | toMachine
  | toGateway
  | apply
  | timeout (id : ℕ)
  | closes (i : ℕ)
  | activates (i : ℕ) (id : SessionId)
  | ends (i : ℕ)
  | answers (i : ℕ)
  deriving DecidableEq

/-- The view of the hub after a change that is not made by a command. -/
def World.changed (w : World) : Action → View
  | .attach id => w.hub.attach id
  | .detach => w.hub.detach
  | .requestPermission id => w.hub.requestPermission id
  | .decide id => w.hub.decide id
  | .requestAsk id => w.hub.requestAsk id
  | .answerAsk id => w.hub.answerAsk id
  | _ => w.hub

/-- The hub sends an envelope at a change: when it has attached a session, and when the ids of a
queue, joined, are not what they were. It sends none when it detaches. -/
def World.tells (w : World) : Action → Bool
  | .event => true
  | .attach _ => true
  | .detach => false
  | a =>
    ",".intercalate (w.changed a).pendingPermissions ≠ ",".intercalate w.hub.pendingPermissions ||
      ",".intercalate (w.changed a).pendingAsks ≠ ",".intercalate w.hub.pendingAsks

/-- A change that is not made by a command. -/
def World.change (w : World) (a : Action) : World :=
  if w.tells a then { w with hub := w.changed a }.forward else { w with hub := w.changed a }

/-- `hub.start` and `hub.resume` close the session first; `hub.closeActive` does nothing else. -/
def World.closes (w : World) (i : ℕ) (c : Call) : World :=
  match c.stage, c.method with
  | .received, .start | .received, .resume _ =>
    { w with hub := w.hub.detach }.setStage i (.closed w.hub.active.isSome)
  | .received, .closeActive => { w with hub := w.hub.detach }.setStage i (.done (some none))
  | _, _ => w

/-- The controller has activated a session, and the hub has attached it. -/
def World.activates (w : World) (i : ℕ) (c : Call) (id : SessionId) : World :=
  match c.stage, c.method with
  | .closed _, .start =>
    ({ w with hub := w.hub.attach id }.forward).setStage i (.done (some (some id)))
  | .closed _, .resume id' =>
    if id = id' then
      ({ w with hub := w.hub.attach id }.forward).setStage i (.done (some (some id)))
    else w
  | _, _ => w

/-- The command fails, or it is one of the others. -/
def World.ends (w : World) (i : ℕ) (c : Call) : World :=
  match c.stage with
  | .done _ => w
  | _ => w.setStage i (.done none)

/-- The result is sent. -/
def World.answers (w : World) (i : ℕ) (c : Call) : World :=
  match c.stage with
  | .done active =>
    { w with
      calls := w.calls.eraseIdx i
      toGateway := w.toGateway ++ [.result c.id c.method active] }
  | _ => w

/-- The machine receives a frame. -/
def World.handleFrame (w : World) : GatewayFrame → World
  | .registered => { w with forwarding := true }
  | .rpc id method => { w with calls := w.calls ++ [⟨id, method, .received⟩] }

/-- The gateway receives a frame. A result of a command that has timed out is passed over. -/
def World.onMessage (w : World) : MachineFrame → World
  | .register v =>
    match w.remote with
    | none => { w with remote := some v, toMachine := w.toMachine ++ [.registered] }
    | some _ => w
  | .event => w
  | .state v => { w with remote := w.remote.map fun _ => v }
  | .result id _ active =>
    if id ∈ w.timedOut then w else { w with applies := w.applies ++ active.toList }

/-- A result is applied: `applyState` with the pending requests that the remote hub has. -/
def World.applyResult (w : World) : World :=
  match w.applies with
  | [] => w
  | active :: applies =>
    { w with
      applies := applies
      remote := w.remote.map fun v => { v with active := active } }

/-- A step. What cannot happen in a state does nothing in it. -/
def World.step (w : World) : Action → World
  | .sendRegister => w.sendRegister
  | .call method =>
    if w.remote.isSome then
      { w with
        sent := w.sent ++ [method]
        toMachine := w.toMachine ++ [.rpc w.sent.length method] }
    else w
  | .toMachine =>
    match w.toMachine with
    | [] => w
    | f :: fs => { w with toMachine := fs }.handleFrame f
  | .toGateway =>
    match w.toGateway with
    | [] => w
    | f :: fs => { w with toGateway := fs }.onMessage f
  | .apply => w.applyResult
  | .timeout id => { w with timedOut := w.timedOut ++ [id] }
  | .closes i => (w.calls[i]?.map (w.closes i)).getD w
  | .activates i id => (w.calls[i]?.map fun c => w.activates i c id).getD w
  | .ends i => (w.calls[i]?.map (w.ends i)).getD w
  | .answers i => (w.calls[i]?.map (w.answers i)).getD w
  | a => w.change a

/-- The state after a run. -/
def World.run (hub : View) (as : List Action) : World :=
  as.foldl World.step (.initial hub)

/-! ### What is claimed -/

/-- Nothing is on its way, not even a result that is still to be sent or applied. -/
structure Delivered (w : World) : Prop where
  toGateway : w.toGateway = []
  toMachine : w.toMachine = []
  applies : w.applies = []
  answered : ∀ c ∈ w.calls, ∀ active, c.stage ≠ .done active

/-- Two views have the same active session and the same requests. -/
structure View.Agrees (v v' : View) : Prop where
  active : v.active = v'.active
  pendingPermissions : ∀ id, id ∈ v.pendingPermissions ↔ id ∈ v'.pendingPermissions
  pendingAsks : ∀ id, id ∈ v.pendingAsks ↔ id ∈ v'.pendingAsks

/-- When the connection is open and nothing is on its way, the gateway and the machine agree. -/
def Converged (w : World) : Prop :=
  w.opened → Delivered w → ∃ v, w.remote = some v ∧ v.Agrees w.hub

/-- The active session that a result on its way sets. -/
def MachineFrame.effect : MachineFrame → Option (Option SessionId)
  | .result _ _ active => active
  | _ => none

/-- The active session that a command which is done will set. -/
def Call.effect (c : Call) : Option (Option SessionId) :=
  match c.stage with
  | .done active => active
  | _ => none

/-- The active sessions that results will set. -/
def World.effects (w : World) : List (Option SessionId) :=
  w.applies ++ w.toGateway.filterMap MachineFrame.effect ++ w.calls.filterMap Call.effect

/-- The state of the machine does not change while it registers, and a change that no command makes
is told: the hub sends an envelope, and the signature is not the one that was told last. The active
session does not change while a result that sets it is on its way. No command ends without a result
that sets the active session if it has closed one, and none that changes it times out. -/
def Orderly (w : World) (a : Action) : Prop :=
  ((w.step a).hub ≠ w.hub → w.opened → w.forwarding) ∧ (w.changed a ≠ w.hub → w.opened →
      w.tells a ∧ signatureOf (w.changed a) ≠ w.stateSignature) ∧
    ((w.step a).hub.active ≠ w.hub.active → w.effects = []) ∧
    match a with
    | .ends i => ∀ c ∈ w.calls[i]?, c.stage ≠ .closed true
    | .timeout id => w.sent[id]? = some .other
    | _ => True

end Uplink
