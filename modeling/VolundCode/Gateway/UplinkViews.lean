import VolundCode.Gateway.Uplink

/-!
# The view that the gateway will have

When everything on its way has arrived, the gateway has the requests of the machine, and its active
session unless a command has closed that and not activated another yet (`Registered`). This is what
holds along an orderly run once the machine is registered. The lemmas say that it still holds when
an envelope is sent and when a command goes on, closes a session or is done.
-/

namespace Uplink

open List World

/-! ### Views -/

/-- The active session is set to each of the list in turn. -/
def setActives (actives : List (Option SessionId)) (v : View) : View :=
  actives.foldl (fun v active => { v with active := active }) v

/-- What a frame makes of the view of the gateway. -/
def deliver (v : View) : MachineFrame → View
  | .register v' | .state v' => v'
  | .event => v
  | .result _ _ active => setActives active.toList v

/-- The view that the gateway will have when everything on its way has arrived. -/
def World.arrived (w : World) : View :=
  w.toGateway.foldl deliver (setActives w.applies (w.remote.getD .empty))

/-- The view that the gateway will have when the results of the commands that are done have arrived
as well. -/
def World.eventual (w : World) : View :=
  setActives (w.calls.filterMap Call.effect) w.arrived

@[simp]
theorem setActives_nil (v : View) :
  setActives [] v = v
  := rfl

@[simp]
theorem setActives_cons (active : Option SessionId) (actives : List (Option SessionId)) (v : View) :
  setActives (active :: actives) v = setActives actives { v with active := active }
  := rfl

/-- Setting the active session leaves the requests as they are. -/
theorem setActives_requests (actives : List (Option SessionId)) (v : View) :
  (setActives actives v).pendingPermissions = v.pendingPermissions ∧
    (setActives actives v).pendingAsks = v.pendingAsks
  := by
  induction actives generalizing v with
  | nil => simp
  | cons active actives ih => exact ih { v with active := active }

theorem setActives_append (as bs : List (Option SessionId)) (v : View) :
  setActives (as ++ bs) v = setActives bs (setActives as v)
  := by
  simp [setActives]

/-- If every session that is set is the same, that one is active in the end. -/
theorem setActives_of_all {actives : List (Option SessionId)} {active : Option SessionId}
    (h : ∀ a ∈ actives, a = active) (hne : actives ≠ []) (v : View) :
  setActives actives v = { v with active := active }
  := by
  induction actives generalizing v with
  | nil => exact absurd rfl hne
  | cons a actives ih =>
  obtain rfl := h a mem_cons_self
  rw [setActives_cons]
  by_cases hactives : actives = []
  · rw [hactives, setActives_nil]
  · rw [ih (fun b hb => h b (mem_cons_of_mem _ hb)) hactives]

/-- Setting the session that is active changes nothing. -/
theorem setActives_of_active {actives : List (Option SessionId)} {v : View}
    (h : ∀ a ∈ actives, a = v.active) :
  setActives actives v = v
  := by
  by_cases hne : actives = []
  · rw [hne, setActives_nil]
  · rw [setActives_of_all h hne]

/-- What arrives makes of another active session the same view, or one that differs in the active
session only, as it did. -/
theorem foldl_deliver_active (fs : List MachineFrame) (v : View) (active : Option SessionId) :
  fs.foldl deliver { v with active := active } = fs.foldl deliver v ∨
    fs.foldl deliver { v with active := active } = { fs.foldl deliver v with active := active }
  := by
  induction fs generalizing v with
  | nil => exact .inr rfl
  | cons f fs ih =>
  cases f with
  | register v' | state v' => exact .inl rfl
  | event => exact ih v
  | result id method effect =>
    cases effect with
    | none => exact ih v
    | some x => exact .inl rfl

/-! ### What holds along a run -/

/-- The result of a command that the gateway has sent says which session is active only if the
command is one that changes it. -/
def World.Names (w : World) (id : ℕ) (method : HubRpcMethod) (effect : Option (Option SessionId)) :
    Prop :=
  w.sent[id]? = some method ∧ (effect ≠ none → method ≠ .other)

/-- The commands on their way and those that are carried out are commands that were sent, and none
that changes the active session has timed out. -/
structure Named (w : World) : Prop where
  rpc : ∀ id method, .rpc id method ∈ w.toMachine → w.sent[id]? = some method
  call : ∀ c ∈ w.calls, w.Names c.id c.method c.effect
  result : ∀ id method effect, .result id method effect ∈ w.toGateway → w.Names id method effect
  timedOut : ∀ id ∈ w.timedOut, w.sent[id]? = some .other

/-- Once the gateway has the machine registered, its view will have the requests of the machine when
everything on its way has arrived. It will have its active session too, unless a command has closed
that and not activated another yet. Every result on its way sets the session that is active. -/
structure Registered (w : World) : Prop where
  opened : w.opened
  remote : w.remote ≠ none
  named : Named w
  register : ∀ v, .register v ∉ w.toGateway
  effects : ∀ x ∈ w.effects, x = w.hub.active
  pendingPermissions : w.eventual.pendingPermissions = w.hub.pendingPermissions
  pendingAsks : w.eventual.pendingAsks = w.hub.pendingAsks
  active : w.eventual.active = w.hub.active ∨
    w.hub.active = none ∧ w.effects = [] ∧ ∃ c ∈ w.calls, c.stage = .closed true

/-- The connection is not open yet, the machine registers with the view that it has, or it is
registered. -/
def Steady (w : World) : Prop :=
  (∃ hub, w = .initial hub) ∨ (∃ hub, w = (World.initial hub).sendRegister) ∨ Registered w

variable {c : Call} {i : ℕ}

/-- The commands that are carried out, around one of them. -/
theorem calls_split {calls : List Call} (h : calls[i]? = some c) :
  ∃ before after, calls = before ++ c :: after ∧ calls.eraseIdx i = before ++ after ∧
    ∀ f, calls.modify i f = before ++ f c :: after
  := by
  obtain ⟨hi, rfl⟩ := List.getElem?_eq_some_iff.mp h
  use calls.take i, calls.drop (i + 1)
  constructor
  · rw [getElem_cons_drop, take_append_drop]
  constructor
  · rw [eraseIdx_eq_take_drop_succ]
  · intro f
    rw [modify_eq_take_cons_drop hi]

variable {w : World}

/-- What the results set, among them that of one command. -/
theorem mem_effects {x : Option SessionId} :
  x ∈ w.effects ↔ x ∈ w.applies ∨ (∃ f ∈ w.toGateway, f.effect = some x) ∨
    ∃ c ∈ w.calls, c.effect = some x
  := by
  simp only [World.effects, mem_append, mem_filterMap, or_assoc]

/-- Nothing has changed in what the gateway will have when everything on its way has arrived. -/
theorem Registered.of_same {w' : World} (h : Registered w) (hopen : w'.opened = w.opened)
    (hremote : w'.remote ≠ none) (hnamed : Named w') (hreg : ∀ v, .register v ∉ w'.toGateway)
    (hhub : w'.hub = w.hub) (heffs : w'.effects = w.effects) (hevent : w'.eventual = w.eventual)
    (hcalls : ∀ c ∈ w.calls, c.stage = .closed true → c ∈ w'.calls) :
  Registered w'
  := by
  constructor
  · rw [hopen]
    exact h.opened
  · exact hremote
  · exact hnamed
  · exact hreg
  · rw [heffs, hhub]
    exact h.effects
  · rw [hevent, hhub]
    exact h.pendingPermissions
  · rw [hevent, hhub]
    exact h.pendingAsks
  rw [hevent, heffs, hhub]
  rcases h.active with hact | ⟨hnone, hempty, c, hc, hstage⟩
  · exact .inl hact
  · exact .inr ⟨hnone, hempty, c, hcalls c hc hstage, hstage⟩

/-- An envelope that is forwarded, with the view of the machine if that has changed. -/
theorem Registered.push (h : Registered w) {v : View} (signature : String)
    (hv : ∀ x ∈ w.effects, x = v.active) :
  Registered
    { w with
      hub := v
      stateSignature := signature
      toGateway := w.toGateway ++ [.event, .state v] }
  := by
  have heffs : ∀ x ∈ w.calls.filterMap Call.effect, x = v.active := by
    intro x hx
    exact hv x (mem_append_right _ hx)
  have hevent : eventual
      { w with
        hub := v
        stateSignature := signature
        toGateway := w.toGateway ++ [.event, .state v] } = v := by
    simp only [eventual, arrived, foldl_append, foldl_cons, foldl_nil, deliver]
    exact setActives_of_active heffs
  constructor
  · exact h.opened
  · exact h.remote
  · constructor
    · exact h.named.rpc
    · exact h.named.call
    · intro id method effect hres
      apply h.named.result id method effect
      simpa using hres
    · exact h.named.timedOut
  · simpa using h.register
  · intro x hx
    apply hv x
    simpa [World.effects, filterMap_append, MachineFrame.effect] using hx
  · rw [hevent]
  · rw [hevent]
  · rw [hevent]
    exact .inl rfl

/-- The hub sends an envelope. -/
theorem Registered.forward (h : Registered w) :
  Registered w.forward
  := by
  unfold World.forward
  split_ifs with hfwd hsignature
  · apply h.of_same
    · rfl
    · exact h.remote
    · constructor
      · exact h.named.rpc
      · exact h.named.call
      · intro id method effect hres
        apply h.named.result id method effect
        simpa using hres
      · exact h.named.timedOut
    · simpa using h.register
    · rfl
    · simp [World.effects, filterMap_append, MachineFrame.effect]
    · simp [eventual, arrived, deliver]
    · exact fun c hc _ => hc
  · exact h.push (signatureOf w.hub) h.effects
  · exact h

variable {stage : Stage}

/-- A command goes on without a result that sets the active session, now or before. -/
theorem filterMap_setStage
    (hc : w.calls[i]? = some c) (hold : c.effect = none)
    (hnew : ({ c with stage := stage } : Call).effect = none) :
  (w.setStage i stage).calls.filterMap Call.effect = w.calls.filterMap Call.effect
  := by
  obtain ⟨before, after, hcalls, -, hmodify⟩ := calls_split hc
  simp only [World.setStage, hmodify]
  rw [hcalls]
  simp [filterMap_append, hold, hnew]

/-- The commands are those that there were, but for the one that goes on. -/
theorem mem_setStage {d : Call} (hc : w.calls[i]? = some c) (hd : d ∈ (w.setStage i stage).calls) :
  d = { c with stage := stage } ∨ d ∈ w.calls
  := by
  obtain ⟨before, after, hcalls, -, hmodify⟩ := calls_split hc
  simp only [World.setStage, hmodify] at hd
  rw [hcalls]
  rcases mem_append.mp hd with hd | hd
  · exact .inr (mem_append_left _ hd)
  · rcases mem_cons.mp hd with hd | hd
    · exact .inl hd
    · exact .inr (by simp [hd])

/-- The command goes on, and so do the others as they were. -/
theorem mem_setStage_of (hc : w.calls[i]? = some c) :
  { c with stage := stage } ∈ (w.setStage i stage).calls ∧
    ∀ d ∈ w.calls, d = c ∨ d ∈ (w.setStage i stage).calls
  := by
  obtain ⟨before, after, hcalls, -, hmodify⟩ := calls_split hc
  simp only [World.setStage, hmodify]
  constructor
  · simp
  intro d hd
  rw [hcalls] at hd
  simp only [mem_append, mem_cons] at hd ⊢
  tauto

/-- A command that goes on is still one that was sent. -/
theorem Named.setStage (h : Named w) (hc : w.calls[i]? = some c)
    (hnew : ({ c with stage := stage } : Call).effect ≠ none → c.method ≠ .other) :
  Named (w.setStage i stage)
  := by
  constructor
  · exact h.rpc
  · intro d hd
    rcases mem_setStage hc hd with rfl | hd
    · exact ⟨(h.call c (mem_of_getElem? hc)).1, hnew⟩
    · exact h.call d hd
  · exact h.result
  · exact h.timedOut

/-- A command goes on without a result that sets the active session. -/
theorem Registered.setStage (h : Registered w) (hc : w.calls[i]? = some c) (hold : c.effect = none)
    (hnew : ({ c with stage := stage } : Call).effect = none) (hshut : c.stage ≠ .closed true) :
  Registered (w.setStage i stage)
  := by
  have hfilt := filterMap_setStage hc hold hnew
  apply h.of_same
  · rfl
  · exact h.remote
  · exact h.named.setStage hc fun hne => absurd hnew hne
  · exact h.register
  · rfl
  · unfold World.effects
    rw [hfilt]
    rfl
  · unfold eventual
    rw [hfilt]
    rfl
  intro d hd hstage
  rcases (mem_setStage_of hc).2 d hd with rfl | hd
  · exact absurd hstage hshut
  · exact hd

/-- A command closes the session that is active, and no result that sets it is on its way. -/
theorem Registered.detach (h : Registered w)
    (hc : w.calls[i]? = some c) (hstage : c.stage = .received)
    (hact : w.hub.active ≠ none → w.effects = []) :
  Registered ({ w with hub := w.hub.detach }.setStage i (.closed w.hub.active.isSome))
  := by
  have hold : c.effect = none := by
    simp only [Call.effect, hstage]
  cases hhub : w.hub.active with
  | none =>
    have hsame : w.hub.detach = w.hub := by
      unfold View.detach
      rw [← hhub]
    rw [hsame]
    exact h.setStage hc hold rfl (by simp [hstage])
  | some id =>
  obtain ⟨w', hw'⟩ :
    ∃ w', w' = { w with hub := w.hub.detach }.setStage i (.closed true) := ⟨_, rfl⟩
  have hfilt : w'.calls.filterMap Call.effect = w.calls.filterMap Call.effect := by
    rw [hw']
    exact filterMap_setStage (w := { w with hub := w.hub.detach }) hc hold rfl
  have heffs : w'.effects = [] := by
    have hempty := hact (by simp [hhub])
    unfold World.effects at hempty ⊢
    rw [hfilt, hw']
    exact hempty
  have hevent : w'.eventual = w.eventual := by
    unfold eventual
    rw [hfilt, hw']
    rfl
  rw [Option.isSome_some, ← hw']
  constructor
  · rw [hw']
    exact h.opened
  · rw [hw']
    exact h.remote
  · rw [hw']
    have hnamed : Named { w with hub := w.hub.detach } :=
      ⟨h.named.rpc, h.named.call, h.named.result, h.named.timedOut⟩
    exact hnamed.setStage hc fun hne => absurd rfl hne
  · rw [hw']
    exact h.register
  · rw [heffs]
    intro x hx
    exact absurd hx not_mem_nil
  · rw [hevent, hw']
    exact h.pendingPermissions
  · rw [hevent, hw']
    exact h.pendingAsks
  apply Or.inr
  rw [heffs, hw']
  use rfl, rfl, { c with stage := .closed true }
  exact ⟨(mem_setStage_of (w := { w with hub := w.hub.detach }) hc).1, rfl⟩

/-- A command is done and its result sets the active session, to which the hub has changed it. -/
theorem Registered.settle (h : Registered w)
    {active : Option SessionId} (hc : w.calls[i]? = some c) (hmeth : c.method ≠ .other)
    (hact : active ≠ w.hub.active → w.effects = []) :
  Registered ({ w with hub := { w.hub with active := active } }.setStage i (.done (some active)))
  := by
  have heffs : ∀ x ∈ w.effects, x = active := by
    intro x hx
    by_cases hsame : active = w.hub.active
    · rw [hsame]
      exact h.effects x hx
    · rw [hact hsame] at hx
      exact absurd hx not_mem_nil
  obtain ⟨v, hv⟩ : ∃ v, v = { w with hub := { w.hub with active := active } } := ⟨_, rfl⟩
  have hcv : v.calls[i]? = some c := by
    rw [hv]
    exact hc
  have hnamed : Named v := by
    rw [hv]
    exact ⟨h.named.rpc, h.named.call, h.named.result, h.named.timedOut⟩
  have hcalls : ∀ d ∈ (v.setStage i (.done (some active))).calls,
      d.effect = some active ∨ d ∈ w.calls := by
    intro d hd
    rcases mem_setStage hcv hd with rfl | hd
    · exact .inl rfl
    · rw [hv] at hd
      exact .inr hd
  have hall : ∀ x ∈ (v.setStage i (.done (some active))).effects, x = active := by
    intro x hx
    rw [mem_effects] at hx
    rcases hx with hx | hx | ⟨d, hd, hx⟩
    · rw [hv] at hx
      exact heffs x (mem_effects.mpr (.inl hx))
    · rw [hv] at hx
      exact heffs x (mem_effects.mpr (.inr (.inl hx)))
    · rcases hcalls d hd with hd | hd
      · exact Option.some.inj (hx.symm.trans hd)
      · exact heffs x (mem_effects.mpr (.inr (.inr ⟨d, hd, hx⟩)))
  have hevent : (v.setStage i (.done (some active))).eventual =
      { w.arrived with active := active } := by
    have harrived : (v.setStage i (.done (some active))).arrived = w.arrived := by
      rw [hv]
      rfl
    rw [eventual, harrived]
    apply setActives_of_all
    · intro x hx
      exact hall x (mem_append_right _ hx)
    · apply ne_nil_of_mem
      apply mem_filterMap.mpr
      exact ⟨_, (mem_setStage_of hcv).1, rfl⟩
  have hreqs := setActives_requests (w.calls.filterMap Call.effect) w.arrived
  rw [← hv]
  have hhub : (v.setStage i (.done (some active))).hub = { w.hub with active := active } := by
    rw [hv]
    rfl
  constructor
  · rw [hv]
    exact h.opened
  · rw [hv]
    exact h.remote
  · exact hnamed.setStage hcv fun _ => hmeth
  · rw [hv]
    exact h.register
  · rw [hhub]
    exact hall
  · rw [hevent, hhub]
    exact hreqs.1.symm.trans h.pendingPermissions
  · rw [hevent, hhub]
    exact hreqs.2.symm.trans h.pendingAsks
  · rw [hevent, hhub]
    exact .inl rfl

end Uplink
