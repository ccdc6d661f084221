import VolundCode.Gateway.UplinkViews
import VolundCode.Lib.Run

/-!
# The gateway and the machine agree

If the state changes neither while the machine registers nor without an event that tells the change,
the active session does not change while an answer that sets it is on its way, no command fails
after it has closed a session, and none that changes the active session times out, the gateway and
the machine agree whenever nothing is on its way and no command has closed the session without
another activated yet (`converges_of_orderly`). Otherwise they may not (`not_converges`).
-/

namespace Uplink

open List World

/-! ### Steps of a machine that is registered -/

variable {w : World} {c : Call} {i : ℕ}

/-- The result of a command that is done is sent. -/
theorem Registered.answers (h : Registered w) (hc : w.calls[i]? = some c) :
  Registered (w.answers i c)
  := by
  cases hstage : c.stage with
  | received | closed had => simpa only [World.answers, hstage] using h
  | done active =>
  obtain ⟨before, after, hcalls, herase, -⟩ := calls_split hc
  have heffect : c.effect = active := by
    simp only [Call.effect, hstage]
  obtain ⟨w', hw'⟩ : ∃ w', w' = w.answers i c := ⟨_, rfl⟩
  have hdef : w' =
      { w with
        calls := before ++ after
        toGateway := w.toGateway ++ [.result c.id c.method active] } := by
    simp only [hw', World.answers, hstage, herase]
  have hcall : ∀ d ∈ w'.calls, d ∈ w.calls := by
    intro d hd
    rw [hdef] at hd
    rw [hcalls]
    rcases mem_append.mp hd with hd | hd
    · exact mem_append_left _ hd
    · simp [hd]
  have hres : ∀ f ∈ w'.toGateway, f ∈ w.toGateway ∨ f = .result c.id c.method active := by
    intro f hf
    rw [hdef] at hf
    simpa using hf
  have heffs : ∀ x ∈ w'.effects, x ∈ w.effects := by
    intro x hx
    rw [mem_effects] at hx ⊢
    rcases hx with hx | ⟨f, hf, hx⟩ | ⟨d, hd, hx⟩
    · rw [hdef] at hx
      exact .inl hx
    · rcases hres f hf with hf | rfl
      · exact .inr (.inl ⟨f, hf, hx⟩)
      · exact .inr (.inr ⟨c, mem_of_getElem? hc, heffect.trans hx⟩)
    · exact .inr (.inr ⟨d, hcall d hd, hx⟩)
  have hevent : w'.eventual =
      setActives (active.toList ++ (before ++ after).filterMap Call.effect) w.arrived := by
    rw [hdef, setActives_append]
    simp only [eventual, arrived, foldl_append, foldl_cons, foldl_nil, deliver]
  have hreqs := setActives_requests (w.calls.filterMap Call.effect) w.arrived
  have hreqs' := setActives_requests
    (active.toList ++ (before ++ after).filterMap Call.effect) w.arrived
  have hhub : w'.hub = w.hub := by
    rw [hdef]
  rw [← hw']
  constructor
  · rw [hdef]
    exact h.opened
  · rw [hdef]
    exact h.remote
  · constructor
    · rw [hdef]
      exact h.named.rpc
    · intro d hd
      have hname := h.named.call d (hcall d hd)
      rw [hdef]
      exact hname
    · intro id method effect hf
      rcases hres _ hf with hf | hf
      · have hname := h.named.result id method effect hf
        rw [hdef]
        exact hname
      obtain ⟨rfl, rfl, rfl⟩ := MachineFrame.result.inj hf
      have hname := h.named.call c (mem_of_getElem? hc)
      rw [heffect] at hname
      rw [hdef]
      exact hname
    · rw [hdef]
      exact h.named.timedOut
  · intro v hv
    rcases hres _ hv with hv | hv
    · exact h.register v hv
    · exact MachineFrame.noConfusion hv
  · intro x hx
    rw [hhub]
    exact h.effects x (heffs x hx)
  · rw [hevent, hreqs'.1, ← hreqs.1, hhub]
    exact h.pendingPermissions
  · rw [hevent, hreqs'.2, ← hreqs.2, hhub]
    exact h.pendingAsks
  rw [hevent, hhub]
  cases active with
  | none =>
    have hsame :
        (before ++ after).filterMap Call.effect = w.calls.filterMap Call.effect := by
      rw [hcalls]
      simp [filterMap_append, heffect]
    rw [Option.toList_none, nil_append, hsame]
    rcases h.active with hact | ⟨hnone, hempty, d, hd, hdstage⟩
    · exact .inl hact
    apply Or.inr
    use hnone
    constructor
    · rw [eq_nil_iff_forall_not_mem]
      intro x hx
      have hx := heffs x hx
      rw [hempty] at hx
      exact absurd hx not_mem_nil
    use d
    rw [hcalls] at hd
    rw [hdef]
    simp only [mem_append, mem_cons] at hd ⊢
    rcases hd with hd | rfl | hd
    · exact ⟨.inl hd, hdstage⟩
    · rw [hstage] at hdstage
      exact Stage.noConfusion hdstage
    · exact ⟨.inr hd, hdstage⟩
  | some x =>
  have hall : ∀ y ∈ (some x).toList ++ (before ++ after).filterMap Call.effect,
      y = w.hub.active := by
    intro y hy
    apply h.effects y
    rcases mem_append.mp hy with hy | hy
    · obtain rfl : y = x := by simpa using hy
      exact mem_effects.mpr (.inr (.inr ⟨c, mem_of_getElem? hc, heffect⟩))
    apply mem_append_right
    rw [hcalls]
    simp only [filterMap_append, filterMap_cons, mem_append] at hy ⊢
    rw [heffect]
    rcases hy with hy | hy
    · exact .inl hy
    · exact .inr (mem_cons_of_mem _ hy)
  apply Or.inl
  rw [setActives_of_all hall (by simp)]

/-- A result is applied. -/
theorem Registered.applyResult (h : Registered w) :
  Registered w.applyResult
  := by
  unfold World.applyResult
  cases happlies : w.applies with
  | nil => exact h
  | cons x applies =>
  obtain ⟨v, hremote⟩ := Option.ne_none_iff_exists'.mp h.remote
  have heffs : ∀ y ∈ applies ++ w.toGateway.filterMap MachineFrame.effect ++
      w.calls.filterMap Call.effect, y = w.hub.active := by
    intro y hy
    apply h.effects y
    rw [World.effects, happlies]
    exact mem_cons_of_mem _ hy
  have hevent : eventual
      { w with
        applies := applies
        remote := w.remote.map fun v => { v with active := x } } = w.eventual := by
    simp [eventual, arrived, happlies, hremote]
  constructor
  · exact h.opened
  · simp [hremote]
  · constructor
    · exact h.named.rpc
    · exact h.named.call
    · exact h.named.result
    · exact h.named.timedOut
  · exact h.register
  · exact heffs
  · rw [hevent]
    exact h.pendingPermissions
  · rw [hevent]
    exact h.pendingAsks
  rw [hevent]
  rcases h.active with hact | ⟨-, hempty, -⟩
  · exact .inl hact
  · simp [World.effects, happlies] at hempty

/-- A command closes the active session. -/
theorem Registered.closes (h : Registered w) (hc : w.calls[i]? = some c)
    (hact : (w.closes i c).hub.active ≠ w.hub.active → w.effects = []) :
  Registered (w.closes i c)
  := by
  cases hstage : c.stage with
  | closed had | done active => simpa only [World.closes, hstage] using h
  | received =>
  cases hmeth : c.method with
  | start | resume id =>
    simp only [World.closes, hstage, hmeth] at hact ⊢
    exact h.detach hc hstage fun hne => hact (Ne.symm hne)
  | closeActive =>
    simp only [World.closes, hstage, hmeth] at hact ⊢
    exact h.settle hc (by simp [hmeth]) hact
  | other => simpa only [World.closes, hstage, hmeth] using h

/-- A command goes on and the hub sends an envelope, in any order. -/
theorem forward_setStage (w : World) (i : ℕ) (stage : Stage) :
  w.forward.setStage i stage = (w.setStage i stage).forward
  := by
  unfold World.forward World.setStage
  split_ifs
  all_goals rfl

/-- The hub does not change while it sends an envelope. -/
theorem forward_hub (w : World) :
  w.forward.hub = w.hub
  := by
  unfold World.forward
  split_ifs
  all_goals rfl

/-- A command activates a session. -/
theorem Registered.activates (h : Registered w) {id : SessionId} (hc : w.calls[i]? = some c)
    (hact : (w.activates i c id).hub.active ≠ w.hub.active → w.effects = []) :
  Registered (w.activates i c id)
  := by
  have hattach : c.method ≠ .other → (some id ≠ w.hub.active → w.effects = []) → Registered
        (({ w with hub := w.hub.attach id }.forward).setStage i (.done (some (some id)))) := by
    intro hmeth hact
    rw [forward_setStage]
    exact (h.settle hc hmeth hact).forward
  have hhub : (({ w with hub := w.hub.attach id }.forward).setStage i
      (.done (some (some id)))).hub.active = some id := by
    rw [forward_setStage, forward_hub]
    rfl
  cases hstage : c.stage with
  | received | done active => simpa only [World.activates, hstage] using h
  | closed had =>
  cases hmeth : c.method with
  | start =>
    simp only [World.activates, hstage, hmeth] at hact ⊢
    rw [hhub] at hact
    exact hattach (by simp [hmeth]) hact
  | resume id' =>
    simp only [World.activates, hstage, hmeth] at hact ⊢
    by_cases hid : id = id'
    · rw [if_pos hid] at hact ⊢
      rw [hhub] at hact
      exact hattach (by simp [hmeth]) hact
    · rw [if_neg hid]
      exact h
  | closeActive | other => simpa only [World.activates, hstage, hmeth] using h

/-- A command ends without a result that sets the active session. -/
theorem Registered.ends (h : Registered w)
    (hc : w.calls[i]? = some c) (hshut : c.stage ≠ .closed true) :
  Registered (w.ends i c)
  := by
  cases hstage : c.stage with
  | received | closed had =>
    simp only [World.ends, hstage]
    exact h.setStage hc (by simp only [Call.effect, hstage]) rfl hshut
  | done active => simpa only [World.ends, hstage] using h

/-- The machine receives a frame. -/
theorem Registered.handleFrame {f : GatewayFrame} {fs : List GatewayFrame}
    (h : Registered w) (hfs : w.toMachine = f :: fs) :
  Registered ({ w with toMachine := fs }.handleFrame f)
  := by
  have hrpc : ∀ id method, .rpc id method ∈ fs → w.sent[id]? = some method := by
    intro id method hrpc
    apply h.named.rpc
    rw [hfs]
    exact mem_cons_of_mem f hrpc
  cases f with
  | registered =>
    have hnamed : Named ({ w with toMachine := fs }.handleFrame .registered) :=
      ⟨hrpc, h.named.call, h.named.result, h.named.timedOut⟩
    exact h.of_same rfl h.remote hnamed h.register rfl rfl rfl fun c hc _ => hc
  | rpc id method =>
  have hfilt : (w.calls ++ [(⟨id, method, .received⟩ : Call)]).filterMap Call.effect =
      w.calls.filterMap Call.effect := by
    simp [filterMap_append, Call.effect]
  apply h.of_same
  · rfl
  · exact h.remote
  · constructor
    · exact hrpc
    · intro c hc
      rcases mem_append.mp hc with hc | hc
      · exact h.named.call c hc
      obtain rfl := mem_singleton.mp hc
      constructor
      · apply h.named.rpc
        rw [hfs]
        exact mem_cons_self
      · intro hne
        exact absurd rfl hne
    · exact h.named.result
    · exact h.named.timedOut
  · exact h.register
  · rfl
  · simp only [World.handleFrame, World.effects, hfilt]
  · simp only [World.handleFrame, eventual, arrived, hfilt]
  · exact fun c hc _ => mem_append_left _ hc

/-- The gateway receives a frame. -/
theorem Registered.onMessage {f : MachineFrame} {fs : List MachineFrame}
    (h : Registered w) (hfs : w.toGateway = f :: fs) :
  Registered ({ w with toGateway := fs }.onMessage f)
  := by
  obtain ⟨v, hremote⟩ := Option.ne_none_iff_exists'.mp h.remote
  have hres : ∀ id method effect, .result id method effect ∈ fs → w.Names id method effect := by
    intro id method effect hres
    apply h.named.result
    rw [hfs]
    exact mem_cons_of_mem f hres
  have hreg : ∀ v, .register v ∉ fs := by
    intro v hv
    apply h.register v
    rw [hfs]
    exact mem_cons_of_mem f hv
  have hnamed : Named { w with toGateway := fs } :=
    ⟨h.named.rpc, h.named.call, hres, h.named.timedOut⟩
  -- nothing of the effects and of the eventual view is in a frame that the gateway passes over
  have hover : f.effect = none → (∀ v, deliver v f = v) →
      Registered { w with toGateway := fs } := by
    intro hnone hdeliver
    apply h.of_same
    · rfl
    · exact h.remote
    · exact hnamed
    · exact hreg
    · rfl
    · simp [World.effects, hfs, hnone]
    · simp [eventual, arrived, hfs, hdeliver]
    · exact fun c hc _ => hc
  cases f with
  | register v =>
    apply absurd _ (h.register v)
    rw [hfs]
    exact mem_cons_self
  | event => exact hover rfl fun v => rfl
  | state v' =>
    have heffs : World.effects
        { w with
          toGateway := fs
          remote := some v' } = w.effects := by
      unfold World.effects
      rw [hfs]
      rfl
    have hpre : w.eventual =
        setActives (w.calls.filterMap Call.effect) (fs.foldl deliver v') := by
      simp [eventual, arrived, hfs, deliver]
    have hevent : eventual
        { w with
          toGateway := fs
          remote := some v' } = w.eventual ∨
        w.effects ≠ [] ∧ eventual
          { w with
            toGateway := fs
            remote := some v' } = { fs.foldl deliver v' with active := w.hub.active } := by
      simp only [eventual, arrived, hfs, Option.getD_some, foldl_cons, deliver]
      by_cases happlies : w.applies = []
      · rw [happlies]
        exact .inl rfl
      have hall : ∀ x ∈ w.applies, x = w.hub.active := by
        intro x hx
        exact h.effects x (mem_effects.mpr (.inl hx))
      rw [setActives_of_all hall happlies]
      rcases foldl_deliver_active fs v' w.hub.active with hsame | hsame
      · rw [hsame]
        exact .inl rfl
      apply Or.inr
      constructor
      · intro hempty
        apply happlies
        simp only [World.effects, append_eq_nil_iff] at hempty
        exact hempty.1.1
      rw [hsame]
      apply setActives_of_active
      intro x hx
      exact h.effects x (mem_append_right _ hx)
    have hreqs := setActives_requests (w.calls.filterMap Call.effect) (fs.foldl deliver v')
    rw [← hpre] at hreqs
    have hw' : { w with toGateway := fs }.onMessage (.state v') =
        { w with
          toGateway := fs
          remote := some v' } := by
      simp [World.onMessage, hremote]
    rw [hw']
    constructor
    · exact h.opened
    · simp
    · exact ⟨h.named.rpc, h.named.call, hres, h.named.timedOut⟩
    · exact hreg
    · rw [heffs]
      exact h.effects
    · rcases hevent with hevent | ⟨-, hevent⟩
      · rw [hevent]
        exact h.pendingPermissions
      · rw [hevent]
        exact hreqs.1.symm.trans h.pendingPermissions
    · rcases hevent with hevent | ⟨-, hevent⟩
      · rw [hevent]
        exact h.pendingAsks
      · rw [hevent]
        exact hreqs.2.symm.trans h.pendingAsks
    rcases hevent with hevent | ⟨-, hevent⟩
    · rw [hevent, heffs]
      exact h.active
    · rw [hevent]
      exact .inl rfl
  | result id method effect =>
  have hname : w.Names id method effect := by
    apply h.named.result
    rw [hfs]
    exact mem_cons_self
  cases effect with
  | none =>
    simp only [World.onMessage, Option.toList_none, append_nil, ite_self]
    exact hover rfl fun v => rfl
  | some x =>
  have htimedOut : id ∉ w.timedOut := by
    intro hid
    have hother := h.named.timedOut id hid
    apply hname.2 (by simp)
    exact Option.some.inj (hname.1.symm.trans hother)
  have hw' : { w with toGateway := fs }.onMessage (.result id method (some x)) =
      { w with
        toGateway := fs
        applies := w.applies ++ [x] } := by
    simp [World.onMessage, htimedOut]
  rw [hw']
  apply h.of_same
  · rfl
  · exact h.remote
  · exact ⟨h.named.rpc, h.named.call, hres, h.named.timedOut⟩
  · exact hreg
  · rfl
  · simp [World.effects, hfs, MachineFrame.effect]
  · simp [eventual, arrived, hfs, deliver, setActives_append]
  · exact fun c hc _ => hc

/-- The gateway sends a command. -/
theorem Registered.call (h : Registered w) (method : HubRpcMethod) :
  Registered
    { w with
      sent := w.sent ++ [method]
      toMachine := w.toMachine ++ [.rpc w.sent.length method] }
  := by
  have hsent : ∀ {id : ℕ} {method' : HubRpcMethod}, w.sent[id]? = some method' →
      (w.sent ++ [method])[id]? = some method' := by
    intro id method' hid
    rw [List.getElem?_append_left (List.getElem?_eq_some_iff.mp hid).1]
    exact hid
  apply h.of_same
  · rfl
  · exact h.remote
  · constructor
    · intro id method' hrpc
      rcases mem_append.mp hrpc with hrpc | hrpc
      · exact hsent (h.named.rpc id method' hrpc)
      · obtain ⟨rfl, rfl⟩ := GatewayFrame.rpc.inj (mem_singleton.mp hrpc)
        exact List.getElem?_concat_length
    · intro c hc
      exact ⟨hsent (h.named.call c hc).1, (h.named.call c hc).2⟩
    · intro id method' effect hres
      have hname := h.named.result id method' effect hres
      exact ⟨hsent hname.1, hname.2⟩
    · intro id hid
      exact hsent (h.named.timedOut id hid)
  · exact h.register
  · rfl
  · rfl
  · rfl
  · exact fun c hc _ => hc

/-- A command that does not change the active session times out. -/
theorem Registered.timeout (h : Registered w) {id : ℕ} (hid : w.sent[id]? = some .other) :
  Registered { w with timedOut := w.timedOut ++ [id] }
  := by
  have hnamed : Named { w with timedOut := w.timedOut ++ [id] } := by
    constructor
    · exact h.named.rpc
    · exact h.named.call
    · exact h.named.result
    intro id' hid'
    rcases mem_append.mp hid' with hid' | hid'
    · exact h.named.timedOut id' hid'
    · rw [mem_singleton.mp hid']
      exact hid
  exact h.of_same rfl h.remote hnamed h.register rfl rfl rfl fun c hc _ => hc

variable {a : Action}

/-- A change of the machine's view that no command makes. -/
theorem Registered.change (h : Registered w) (hfwd : w.changed a ≠ w.hub → w.forwarding)
    (htells : w.changed a ≠ w.hub → w.tells a ∧ signatureOf (w.changed a) ≠ w.stateSignature)
    (hact : (w.changed a).active ≠ w.hub.active → w.effects = []) :
  Registered (w.change a)
  := by
  unfold World.change
  by_cases hsame : w.changed a = w.hub
  · rw [hsame]
    split_ifs
    · exact h.forward
    · exact h
  obtain ⟨htell, hsignature⟩ := htells hsame
  rw [if_pos htell, World.forward, if_pos (by exact hfwd hsame),
    if_neg (by exact hsignature)]
  apply h.push
  intro x hx
  by_cases hunchanged : (w.changed a).active = w.hub.active
  · rw [hunchanged]
    exact h.effects x hx
  · rw [hact hunchanged] at hx
    exact absurd hx not_mem_nil

/-- The view of the hub after a change that no command makes. -/
theorem change_hub (w : World) (a : Action) :
  (w.change a).hub = w.changed a
  := by
  unfold World.change
  split_ifs
  · rw [forward_hub]
  · rfl

/-- A step of a machine that is registered, if it is orderly. -/
theorem Registered.step (h : Registered w) (ha : Orderly w a) :
  Registered (w.step a)
  := by
  obtain ⟨hfwd, htells, hact, haction⟩ := ha
  have hchg : w.step a = w.change a → Registered (w.step a) := by
    intro hstep
    rw [hstep] at hfwd hact ⊢
    rw [change_hub] at hfwd hact
    exact h.change (fun hne => hfwd hne h.opened) (fun hne => htells hne h.opened) hact
  have hcall : ∀ (i : ℕ) (f : Call → World),
      (∀ c, w.calls[i]? = some c → ((w.calls[i]?.map f).getD w).hub = (f c).hub →
        Registered (f c)) →
      Registered ((w.calls[i]?.map f).getD w) := by
    intro i f hf
    cases hc : w.calls[i]? with
    | none => exact h
    | some c => exact hf c hc (by rw [hc]; rfl)
  cases a with
  | sendRegister =>
    simp only [World.step, World.sendRegister, h.opened, if_true]
    exact h
  | event | attach id | detach | requestPermission id | decide id | requestAsk id | answerAsk id =>
    exact hchg rfl
  | call method =>
    simp only [World.step]
    split_ifs
    · exact h.call method
    · exact h
  | toMachine =>
    simp only [World.step]
    cases hfs : w.toMachine with
    | nil => exact h
    | cons f fs => exact h.handleFrame hfs
  | toGateway =>
    simp only [World.step]
    cases hfs : w.toGateway with
    | nil => exact h
    | cons f fs => exact h.onMessage hfs
  | apply => exact h.applyResult
  | timeout id => exact h.timeout haction
  | closes i =>
    apply hcall i
    intro c hc hhub
    apply h.closes hc
    rw [← hhub]
    exact hact
  | activates i id =>
    apply hcall i fun c => w.activates i c id
    intro c hc hhub
    apply h.activates hc
    rw [← hhub]
    exact hact
  | ends i =>
    apply hcall i
    intro c hc _
    exact h.ends hc (haction c hc)
  | answers i =>
    apply hcall i
    intro c hc _
    exact h.answers hc

/-! ### Runs -/

/-- Nothing but its view changes on a machine that has not opened a connection. -/
theorem step_initial (hub : View) (ha : Orderly (.initial hub) a) :
  ∃ hub', (World.initial hub).step a = .initial hub' ∨
    (World.initial hub).step a = (World.initial hub').sendRegister
  := by
  have hchg : (World.initial hub).change a = .initial ((World.initial hub).changed a) := by
    unfold World.change World.forward
    by_cases htell : (World.initial hub).tells a
    · rw [if_pos htell, if_neg (by exact Bool.false_ne_true)]
      rfl
    · rw [if_neg htell]
      rfl
  cases a with
  | sendRegister => exact ⟨hub, .inr rfl⟩
  | event | attach id | detach | requestPermission id | decide id | requestAsk id | answerAsk id =>
    exact ⟨_, .inl hchg⟩
  | timeout id => simp [Orderly, World.initial] at ha
  | call method | toMachine | toGateway | apply | closes i | activates i id | ends i | answers i =>
    exact ⟨hub, .inl rfl⟩

/-- The machine is registered with the view that it has. -/
theorem registered_of_register (hub : View) :
  Registered ((World.initial hub).sendRegister.step .toGateway)
  := by
  constructor
  · rfl
  · simp [World.step, World.sendRegister, World.initial, World.onMessage]
  · constructor
    · intro id method hrpc
      simp [World.step, World.sendRegister, World.initial, World.onMessage] at hrpc
    · intro c hc
      exact absurd hc not_mem_nil
    · intro id method effect hres
      exact absurd hres not_mem_nil
    · intro id hid
      exact absurd hid not_mem_nil
  · intro v hv
    exact absurd hv not_mem_nil
  · intro x hx
    exact absurd hx not_mem_nil
  · rfl
  · rfl
  · exact .inl rfl

/-- A step of a machine that registers. -/
theorem step_sendRegister (hub : View) (ha : Orderly (World.initial hub).sendRegister a) :
  (World.initial hub).sendRegister.step a = (World.initial hub).sendRegister ∨
    Registered ((World.initial hub).sendRegister.step a)
  := by
  have hchg :
      (World.initial hub).sendRegister.step a = (World.initial hub).sendRegister.change a →
      (World.initial hub).sendRegister.step a = (World.initial hub).sendRegister := by
    intro hstep
    have hsame : (World.initial hub).sendRegister.changed a = hub := by
      by_contra hne
      have hfwd := ha.1
      rw [hstep, change_hub] at hfwd
      exact absurd (hfwd hne rfl) Bool.false_ne_true
    rw [hstep, World.change, hsame]
    split_ifs
    · rfl
    · rfl
  cases a with
  | toGateway => exact .inr (registered_of_register hub)
  | sendRegister => exact .inl rfl
  | event | attach id | detach | requestPermission id | decide id | requestAsk id | answerAsk id =>
    exact .inl (hchg rfl)
  | timeout id => simp [Orderly, World.initial, World.sendRegister] at ha
  | call method | toMachine | apply | closes i | activates i id | ends i | answers i =>
    exact .inl rfl

/-- An orderly step. -/
theorem Steady.step (h : Steady w) (ha : Orderly w a) :
  Steady (w.step a)
  := by
  rcases h with ⟨hub, rfl⟩ | ⟨hub, rfl⟩ | h
  · obtain ⟨hub', hstep | hstep⟩ := step_initial hub ha
    · exact .inl ⟨hub', hstep⟩
    · exact .inr (.inl ⟨hub', hstep⟩)
  · rcases step_sendRegister hub ha with hstep | hstep
    · exact .inr (.inl ⟨hub, hstep⟩)
    · exact .inr (.inr hstep)
  · exact .inr (.inr (h.step ha))

/-- When nothing is on its way, the gateway has the view of the machine, unless a command has closed
the active session and not activated another yet. -/
theorem Steady.converged (h : Steady w) (hshut : ∀ c ∈ w.calls, c.stage ≠ .closed true) :
  Converged w
  := by
  intro hopen hdeliv
  rcases h with ⟨hub, rfl⟩ | ⟨hub, rfl⟩ | h
  · exact absurd hopen Bool.false_ne_true
  · exact absurd hdeliv.toGateway (cons_ne_nil _ _)
  obtain ⟨v, hremote⟩ := Option.ne_none_iff_exists'.mp h.remote
  have hcalls : w.calls.filterMap Call.effect = [] := by
    rw [filterMap_eq_nil_iff]
    intro c hc
    unfold Call.effect
    cases hstage : c.stage with
    | received | closed had => rfl
    | done active => exact absurd hstage (hdeliv.answered c hc active)
  have hevent : w.eventual = v := by
    simp [eventual, arrived, hcalls, hdeliv.toGateway, hdeliv.applies, hremote]
  use v, hremote
  constructor
  · rcases h.active with hact | ⟨-, -, c, hc, hstage⟩
    · rw [← hevent]
      exact hact
    · exact absurd hstage (hshut c hc)
  · rw [← hevent, h.pendingPermissions]
    exact fun id => Iff.rfl
  · rw [← hevent, h.pendingAsks]
    exact fun id => Iff.rfl

/-- In a run whose steps are orderly, the gateway has the view of the machine whenever nothing is on
its way and no command has closed the active session without another activated yet. -/
theorem converges_of_orderly {hub : View} {as : List Action}
    (h : ∀ past a rest, as = past ++ a :: rest → Orderly (World.run hub past) a) :
  ∀ past rest, as = past ++ rest →
    (∀ c ∈ (World.run hub past).calls, c.stage ≠ .closed true) → Converged (World.run hub past)
  := by
  intro past rest has
  apply Steady.converged
  apply Run.Guarded.invariant (I := Steady) _ (.inl ⟨hub, rfl⟩) _
    (Run.run_some World.step (.initial hub) past)
  · exact Orderly
  · intro w a w' hw ha hstep
    cases hstep
    exact hw.step ha
  · rw [Run.guarded_some_iff]
    intro before a after hpast
    exact h before a (after ++ rest) (by simp [has, hpast])

/-- The session is closed by a command while a request is pending. -/
theorem converges_of_orderly_closeActive :
  Converged (World.run ⟨some ⟨"s", by decide⟩, [], []⟩
    [.sendRegister, .toGateway, .toMachine, .requestPermission "p", .toGateway, .toGateway,
      .call .closeActive, .toMachine, .closes 0, .answers 0, .toGateway, .apply])
  := by
  apply converges_of_orderly ((Run.guarded_some_iff World.step).mp _) _ [] rfl
  · decide
  · refine ⟨?_, ?_, ?_, ?_, ?_, ?_, ?_, ?_, ?_, ?_, ?_, ?_, trivial⟩
    all_goals exact ⟨by decide, by decide, by decide, by trivial⟩

/-- The gateway does not have the view of the machine though nothing is on its way. -/
theorem not_converged {v : View} (hopen : w.opened)
    (htoGateway : w.toGateway = []) (htoMachine : w.toMachine = []) (happlies : w.applies = [])
    (hcalls : w.calls = []) (hremote : w.remote = some v) (hagrees : ¬ v.Agrees w.hub) :
  ¬ Converged w
  := by
  intro h
  have hansw : ∀ c ∈ w.calls, ∀ active, c.stage ≠ .done active := by
    rw [hcalls]
    intro c hc
    exact absurd hc not_mem_nil
  obtain ⟨v', hremote', hagrees'⟩ := h hopen ⟨htoGateway, htoMachine, happlies, hansw⟩
  obtain rfl := Option.some.inj (hremote'.symm.trans hremote)
  exact hagrees hagrees'

/-- A request is made while the machine registers. A command closes the session and fails. The
result of a command is applied when the machine has told of another session already. -/
theorem not_converges :
  ¬ Converged (World.run .empty [.sendRegister, .requestPermission "p", .toGateway, .toMachine]) ∧
    ¬ Converged (World.run ⟨some ⟨"s", by decide⟩, [], []⟩
      [.sendRegister, .toGateway, .toMachine, .call .start, .toMachine, .closes 0, .ends 0,
        .answers 0, .toGateway]) ∧
    ¬ Converged (World.run .empty
      [.sendRegister, .toGateway, .toMachine, .call .start, .toMachine, .closes 0,
        .activates 0 ⟨"s", by decide⟩, .answers 0, .attach ⟨"t", by decide⟩, .toGateway, .toGateway,
        .toGateway, .toGateway, .toGateway, .apply])
  := by
  constructor
  · apply not_converged (v := .empty) (by decide) (by decide) (by decide) (by decide) (by decide)
      (by decide)
    intro h
    exact absurd ((h.pendingPermissions "p").mpr (by decide)) (by decide)
  constructor
  all_goals
    apply not_converged (v := ⟨some ⟨"s", by decide⟩, [], []⟩) (by decide) (by decide) (by decide)
      (by decide) (by decide) (by decide)
    intro h
    exact absurd h.active (by decide)

end Uplink
