import VolundCode.Gateway.ObserveTurn

/-!
# Remote calls

The calls of a remote hub and the registry of the connections they are made on. A call waits in the
map of pending calls for the response with its id, for its timer or for the end of the connection.
Every call is settled once, by one of these (`settles_of_run`), and the registry has for every
client the connection that registered last, of those that are open (`resolve_of_run`).

A call keeps a list of how it was settled, so that nothing hides a second settlement; no function
reads it.
-/

namespace Gateway

open Json List

/-! ### Calls -/

structure GatewayError where
  code : String
  status : Decimal
  message : String

/-- What a promise is settled with. -/
inductive Outcome where
  | resolved (result : Option Json)
  | rejected (cause : GatewayError)

/-- How a call was settled: the id of the response, if it was one, and the outcome. -/
structure Settlement where
  response : Option String
  outcome : Outcome

/-- A call: its id, if it was sent, and how it was settled so far. -/
structure Call where
  id : Option String
  settlements : List Settlement

/-- An entry of the map of pending calls: the call whose promise and timer it has. -/
structure RpcPending where
  call : ℕ
  method : String

/-- A remote hub: its pending calls under their ids, and all the calls that were made. -/
structure RemoteHub where
  nextRpcId : ℕ
  pending : List (String × RpcPending)
  closed : Bool
  calls : List Call

/-- A hub of a connection that has just registered. -/
def RemoteHub.new : RemoteHub where
  nextRpcId := 0
  pending := []
  closed := false
  calls := []

/-- The id of a call. -/
def rpcId (n : ℕ) : String :=
  String.ofList ("rpc-".toList ++ Nat.toDigits 10 n)

def offlineError : GatewayError :=
  ⟨"gateway_uplink_offline", .make 503 0, "machine uplink disconnected"⟩

def timeoutError (method : String) : GatewayError :=
  ⟨"gateway_upstream_failed", .make 504 0, "uplink rpc timeout: " ++ method⟩

/-- The error of a response. -/
def responseError (frame : Json) : GatewayError :=
  let error := field "error" frame
  ⟨(innerText error "code").getD "gateway_upstream_failed",
    match inner error "status" with
    | some (.num status) => status
    | _ => .make 502 0, (innerText error "message").getD "uplink rpc failed"⟩

/-- What a response settles its call with. -/
def responseOutcome (frame : Json) : Outcome :=
  match field "ok" frame with
  | some (.bool true) => .resolved (field "result" frame)
  | _ => .rejected (responseError frame)

/-- The promise of a call is settled. -/
def settleCall (calls : List Call) (call : ℕ) (s : Settlement) : List Call :=
  calls.modify call fun c => { c with settlements := c.settlements ++ [s] }

/-- A call of the hub is settled. -/
def RemoteHub.settle (h : RemoteHub) (call : ℕ) (s : Settlement) : RemoteHub :=
  { h with calls := settleCall h.calls call s }

/-- `pending.get`. -/
def RemoteHub.find (h : RemoteHub) (id : String) : Option RpcPending :=
  (h.pending.find? fun p => p.1 = id).map Prod.snd

/-- `pending.delete`. -/
def RemoteHub.delete (h : RemoteHub) (id : String) : RemoteHub :=
  { h with pending := h.pending.filter fun p => p.1 ≠ id }

/-- `call`. -/
def RemoteHub.call (h : RemoteHub) (method : String) : RemoteHub :=
  if h.closed then
    { h with calls := h.calls ++ [⟨none, [⟨none, .rejected offlineError⟩]⟩] }
  else
    let id := rpcId (h.nextRpcId + 1)
    { h with
      nextRpcId := h.nextRpcId + 1
      pending := h.pending ++ [(id, ⟨h.calls.length, method⟩)]
      calls := h.calls ++ [⟨some id, []⟩] }

/-- `acceptResult`. -/
def RemoteHub.acceptResult (h : RemoteHub) (frame : Json) : RemoteHub :=
  match textField "id" frame with
  | none => h
  | some id =>
    match h.find id with
    | none => h
    | some p => (h.delete id).settle p.call ⟨some id, responseOutcome frame⟩

/-- The timer of a call. It has been cleared if the call is not pending any more. -/
def RemoteHub.timeout (h : RemoteHub) (id : String) : RemoteHub :=
  match h.find id with
  | none => h
  | some p => (h.delete id).settle p.call ⟨none, .rejected (timeoutError p.method)⟩

/-- `close`. -/
def RemoteHub.close (h : RemoteHub) : RemoteHub :=
  if h.closed then h
  else
    { h with
      closed := true
      pending := []
      calls := h.pending.foldl
        (fun calls p => settleCall calls p.2.call ⟨none, .rejected offlineError⟩) h.calls }

/-! ### The registry -/

/-- A connection of a client. It has a hub once it has registered. -/
structure Connection where
  client : String
  isOpen : Bool
  hub : Option RemoteHub

/-- The connections that were attached, the registry, and the connections that have registered in
the order in which they did. -/
structure Registry where
  conns : List Connection
  instances : String → Option ℕ
  registered : List ℕ

/-- A registry without connections. -/
def Registry.empty : Registry where
  conns := []
  instances := fun _ => none
  registered := []

/-- What happens: a connection is attached, its first frame registers it, it is closed by the peer
or for a frame that is not allowed, a response arrives on it, a call is made on its hub, the timer
of a call fires, or the gateway shuts down. -/
inductive Action where
  | attach (client : String)
  | register (k : ℕ)
  | drop (k : ℕ)
  | response (k : ℕ) (frame : Json)
  | call (k : ℕ) (method : String)
  | timeout (k : ℕ) (id : String)
  | closeAll

/-- The hub of a connection is changed. -/
def Registry.onHub (r : Registry) (k : ℕ) (f : RemoteHub → RemoteHub) : Registry :=
  { r with conns := r.conns.modify k fun c => { c with hub := c.hub.map f } }

def setInstance (instances : String → Option ℕ) (client : String) (k : Option ℕ) :
    String → Option ℕ :=
  fun c => if c = client then k else instances c

/-- A connection of a client is taken out of the registry, if it is there. -/
def Registry.unregister (r : Registry) (client : String) (k : ℕ) : Registry :=
  if r.instances client = some k then
    { r with instances := setInstance r.instances client none }
  else r

/-- `terminate`: the connection is closed, with `onClose` of its registration. -/
def Registry.terminate (r : Registry) (k : ℕ) : Registry :=
  match r.conns[k]? with
  | none => r
  | some c =>
    if c.isOpen then
      let r := { r with conns := r.conns.modify k fun c => { c with isOpen := false } }
      if c.hub.isSome then (r.unregister c.client k).onHub k RemoteHub.close else r
    else r

/-- The first frame of a connection: an older connection of the client is closed. -/
def Registry.register (r : Registry) (k : ℕ) : Registry :=
  match r.conns[k]? with
  | none => r
  | some c =>
    if c.isOpen ∧ c.hub.isNone then
      let r := { r with conns := r.conns.modify k fun c => { c with hub := some .new } }
      let r :=
        match r.instances c.client with
        | none => r
        | some previous =>
          (({ r with instances := setInstance r.instances c.client none }).onHub previous
            RemoteHub.close).terminate previous
      { r with
        instances := setInstance r.instances c.client (some k)
        registered := r.registered ++ [k] }
    else r

/-- The connection is the one that the registry has for its client. -/
def Registry.isCurrent (r : Registry) (k : ℕ) : Bool :=
  match r.conns[k]? with
  | none => false
  | some c => r.instances c.client = some k

/-- `closeAll`, in the order in which the connections are in the registry. -/
def Registry.closeAll (r : Registry) : Registry :=
  { (r.registered.filter r.isCurrent).foldl
      (fun r k => (r.onHub k RemoteHub.close).terminate k) r with
    instances := fun _ => none }

/-- Frames of connections that are closed are not read. -/
def Registry.step (r : Registry) : Action → Registry
  | .attach client => { r with conns := r.conns ++ [⟨client, true, none⟩] }
  | .register k => r.register k
  | .drop k => r.terminate k
  | .response k frame =>
    if r.conns[k]?.any Connection.isOpen then r.onHub k fun h => h.acceptResult frame else r
  | .call k method => r.onHub k fun h => h.call method
  | .timeout k id => r.onHub k fun h => h.timeout id
  | .closeAll => r.closeAll

/-- The registry after a run. -/
def Registry.run (as : List Action) : Registry :=
  as.foldl Registry.step .empty

/-! ### The calls of a hub -/

/-- The ids of different calls are different. -/
theorem rpcId_inj {m n : ℕ} (h : rpcId m = rpcId n) :
  m = n
  := by
  have hdig := append_cancel_left (String.ofList_injective h)
  have hvalue := congrArg (fun ds => Nat.ofDigitChars 10 ds 0) hdig
  simpa [Nat.ofDigitChars_ten_toDigits] using hvalue

/-- The settlement fits the call: a response has the id of the call, and everything else is an
error. -/
def Proper (c : Call) (s : Settlement) : Prop :=
  match s.response with
  | some id => c.id = some id ∧
      ∃ frame, textField "id" frame = some id ∧ s.outcome = responseOutcome frame
  | none => ∃ cause, s.outcome = .rejected cause

/-- The call is in the map of pending calls. -/
def RemoteHub.Waits (h : RemoteHub) (i : ℕ) : Prop :=
  ∃ entry ∈ h.pending, entry.2.call = i

/-- What holds of a hub after any number of calls, responses and timers. -/
structure RemoteHub.Sound (h : RemoteHub) : Prop where
  ids : ∀ entry ∈ h.pending, ∃ n ≤ h.nextRpcId, entry.1 = rpcId n
  keys : (h.pending.map Prod.fst).Nodup
  waiting : ∀ entry ∈ h.pending, h.calls[entry.2.call]? = some ⟨some entry.1, []⟩
  settled : ∀ i c, h.calls[i]? = some c → h.Waits i ∨ ∃ s, c.settlements = [s] ∧ Proper c s
  closed : h.closed → h.pending = []

theorem RemoteHub.sound_new : RemoteHub.new.Sound where
  ids := forall_mem_nil _
  keys := nodup_nil
  waiting := forall_mem_nil _
  settled := nofun
  closed _ := rfl

section Hub

variable {h : RemoteHub}

theorem RemoteHub.calls_settle (call i : ℕ) (s : Settlement) :
  (h.settle call s).calls[i]? =
    (h.calls[i]?).map fun c => if call = i then ⟨c.id, c.settlements ++ [s]⟩ else c
  := by
  rw [RemoteHub.settle, settleCall, List.getElem?_modify]
  cases h.calls[i]? with
  | none | some c => rfl

/-- A key has one entry. -/
theorem RemoteHub.Sound.eq_of_key
    (hh : h.Sound) {e f : String × RpcPending} (he : e ∈ h.pending) (hf : f ∈ h.pending)
    (hkey : e.1 = f.1) :
  e = f
  := inj_on_of_nodup_map hh.keys he hf hkey

/-- A call is settled when its entry is taken out of the map. -/
theorem RemoteHub.Sound.settle
    (hh : h.Sound) {entry : String × RpcPending} (hentry : entry ∈ h.pending)
    {rest : List (String × RpcPending)} (hsub : rest.Sublist h.pending)
    (hrest : ∀ e, e ∈ rest ↔ e ∈ h.pending ∧ e.1 ≠ entry.1) {s : Settlement}
    (hs : Proper ⟨some entry.1, [s]⟩ s) :
  ({ h with pending := rest }.settle entry.2.call s).Sound
  := by
  constructor
  · intro e he
    exact hh.ids e (hsub.subset he)
  · exact hh.keys.sublist (hsub.map Prod.fst)
  · intro e he
    obtain ⟨hmem, hne⟩ := (hrest e).mp he
    have hcall : entry.2.call ≠ e.2.call := by
      intro hcall
      have hwait := hh.waiting entry hentry
      rw [hcall, hh.waiting e hmem] at hwait
      exact hne (Option.some.inj (Call.mk.inj (Option.some.inj hwait)).1)
    rw [RemoteHub.calls_settle]
    change (h.calls[e.2.call]?).map _ = _
    rw [hh.waiting e hmem, Option.map_some, if_neg hcall]
  · intro i c hc
    rw [RemoteHub.calls_settle] at hc
    change (h.calls[i]?).map _ = _ at hc
    obtain ⟨c', hc', rfl⟩ := Option.map_eq_some_iff.mp hc
    split_ifs with hcall
    · right
      rw [← hcall, hh.waiting entry hentry] at hc'
      cases hc'
      exact ⟨s, rfl, hs⟩
    rcases hh.settled i c' hc' with ⟨e, he, rfl⟩ | hset
    · left
      refine ⟨e, (hrest e).mpr ⟨he, ?_⟩, rfl⟩
      intro hkey
      exact hcall (congrArg (fun f => f.2.call) (hh.eq_of_key he hentry hkey)).symm
    · exact Or.inr hset
  intro hshut
  have hnil := hh.closed hshut
  rw [hnil] at hsub
  exact sublist_nil.mp hsub

theorem RemoteHub.find_eq_some {id : String} {p : RpcPending} (hfind : h.find id = some p) :
  (id, p) ∈ h.pending
  := by
  obtain ⟨entry, hentry, rfl⟩ := Option.map_eq_some_iff.mp hfind
  have hkey := List.find?_some hentry
  rw [decide_eq_true_eq] at hkey
  rw [← hkey]
  exact mem_of_find?_eq_some hentry

theorem RemoteHub.Sound.find_of_mem (hh : h.Sound) {entry : String × RpcPending}
    (hentry : entry ∈ h.pending) :
  h.find entry.1 = some entry.2
  := by
  cases hfind : h.find entry.1 with
  | none =>
    rw [RemoteHub.find, Option.map_eq_none_iff, List.find?_eq_none] at hfind
    exact absurd (decide_eq_true rfl) (hfind entry hentry)
  | some p =>
    have heq := hh.eq_of_key (RemoteHub.find_eq_some hfind) hentry rfl
    rw [← heq]

theorem RemoteHub.mem_delete {id : String} (e : String × RpcPending) :
  e ∈ (h.delete id).pending ↔ e ∈ h.pending ∧ e.1 ≠ id
  := by
  rw [RemoteHub.delete, mem_filter, decide_eq_true_eq]

theorem RemoteHub.Sound.acceptResult (hh : h.Sound) (frame : Json) :
  (h.acceptResult frame).Sound
  := by
  rw [RemoteHub.acceptResult]
  cases hid : textField "id" frame with
  | none => exact hh
  | some id =>
  dsimp only
  cases hfind : h.find id with
  | none => exact hh
  | some p =>
    exact hh.settle (RemoteHub.find_eq_some hfind) filter_sublist
      (fun e => RemoteHub.mem_delete e) ⟨rfl, frame, hid, rfl⟩

theorem RemoteHub.Sound.timeout (hh : h.Sound) (id : String) :
  (h.timeout id).Sound
  := by
  rw [RemoteHub.timeout]
  cases hfind : h.find id with
  | none => exact hh
  | some p =>
    exact hh.settle (RemoteHub.find_eq_some hfind) filter_sublist
      (fun e => RemoteHub.mem_delete e) ⟨_, rfl⟩

theorem RemoteHub.Sound.call (hh : h.Sound) (method : String) :
  (h.call method).Sound
  := by
  rw [RemoteHub.call]
  split_ifs with hshut
  · have hnil := hh.closed hshut
    constructor
    · exact hh.ids
    · exact hh.keys
    · intro entry hentry
      rw [hnil] at hentry
      cases hentry
    · intro i c hc
      rw [List.getElem?_append] at hc
      split_ifs at hc
      · exact hh.settled i c hc
      right
      rw [List.getElem?_singleton] at hc
      split_ifs at hc
      cases hc
      exact ⟨_, rfl, _, rfl⟩
    · exact hh.closed
  have hfresh : ∀ entry ∈ h.pending, entry.1 ≠ rpcId (h.nextRpcId + 1) := by
    intro entry hentry heq
    obtain ⟨n, hn, hid⟩ := hh.ids entry hentry
    have := rpcId_inj (hid.symm.trans heq)
    omega
  have hold : ∀ (i : ℕ) (c : Call), h.calls[i]? = some c → (h.calls ++ [⟨some (rpcId (h.nextRpcId + 1)), []⟩])[i]? =
      some c := by
    intro i c hc
    rw [List.getElem?_append_left (List.getElem?_eq_some_iff.mp hc).1, hc]
  constructor
  · intro entry hentry
    rcases mem_append.mp hentry with hentry | hentry
    · obtain ⟨n, hn, hid⟩ := hh.ids entry hentry
      exact ⟨n, Nat.le_succ_of_le hn, hid⟩
    · rw [mem_singleton.mp hentry]
      exact ⟨_, le_refl _, rfl⟩
  · rw [map_append, nodup_append]
    refine ⟨hh.keys, nodup_singleton _, ?_⟩
    intro key hkey key' hkey'
    obtain ⟨entry, hentry, rfl⟩ := mem_map.mp hkey
    rw [map_singleton, mem_singleton] at hkey'
    rw [hkey']
    exact hfresh entry hentry
  · intro entry hentry
    rcases mem_append.mp hentry with hentry | hentry
    · exact hold _ _ (hh.waiting entry hentry)
    · rw [mem_singleton.mp hentry]
      exact List.getElem?_concat_length
  · intro i c hc
    rw [List.getElem?_append] at hc
    split_ifs at hc with hi
    · rcases hh.settled i c hc with ⟨entry, hentry, rfl⟩ | hset
      · exact Or.inl ⟨entry, mem_append_left _ hentry, rfl⟩
      · exact Or.inr hset
    left
    rw [List.getElem?_singleton] at hc
    split_ifs at hc
    exact ⟨_, mem_append_right _ (mem_singleton_self _), by dsimp only; omega⟩
  · intro hshut'
    exact absurd hshut' hshut

/-- All the pending calls are settled when a hub is closed. -/
theorem RemoteHub.Sound.settle_all (cause : GatewayError) {ps : List (String × RpcPending)}
    {calls : List Call} (hh : { h with pending := ps, calls := calls }.Sound) :
  RemoteHub.Sound { h with
    closed := true
    pending := []
    calls := ps.foldl (fun (calls : List Call) (p : String × RpcPending) =>
      settleCall calls p.2.call ⟨none, .rejected cause⟩) calls }
  := by
  induction ps generalizing calls with
  | nil =>
    refine ⟨forall_mem_nil _, nodup_nil, forall_mem_nil _, ?_, fun _ => rfl⟩
    intro i c hc
    rcases hh.settled i c hc with ⟨entry, hentry, -⟩ | hset
    · cases hentry
    · exact Or.inr hset
  | cons p ps ih =>
  have hkeys := hh.keys
  rw [map_cons, nodup_cons] at hkeys
  apply ih
  apply hh.settle mem_cons_self (sublist_cons_self p ps)
  · intro e
    rw [mem_cons]
    constructor
    · intro he
      refine ⟨Or.inr he, ?_⟩
      intro hkey
      exact hkeys.1 (mem_map.mpr ⟨e, he, hkey⟩)
    · rintro ⟨rfl | he, hne⟩
      · exact absurd rfl hne
      · exact he
  · exact ⟨_, rfl⟩

theorem RemoteHub.Sound.close (hh : h.Sound) :
  h.close.Sound
  := by
  rw [RemoteHub.close]
  split_ifs
  · exact hh
  · exact RemoteHub.Sound.settle_all offlineError hh

/-- A hub is closed once. -/
theorem RemoteHub.close_of_closed (hshut : h.closed) :
  h.close = h
  := if_pos hshut

theorem RemoteHub.closed_close :
  h.close.closed
  := by
  rw [RemoteHub.close]
  split_ifs with hshut
  · exact hshut
  · rfl

/-- Every call is settled once, by the response with its id or with an error, or it waits on an
open connection, where a response with its id settles it, and so does its timer. -/
structure RemoteHub.Settles (h : RemoteHub) (isOpen : Bool) : Prop where
  once : ∀ i c, h.calls[i]? = some c →
    c.settlements = [] ∧ isOpen ∧ h.Waits i ∨ ∃ s, c.settlements = [s] ∧ Proper c s
  closed : isOpen = false → h.pending = []
  timed : ∀ entry ∈ h.pending, (h.timeout entry.1).calls[entry.2.call]? =
    some ⟨some entry.1, [⟨none, .rejected (timeoutError entry.2.method)⟩]⟩
  answered : ∀ entry ∈ h.pending, ∀ frame, textField "id" frame = some entry.1 →
    (h.acceptResult frame).calls[entry.2.call]? =
      some ⟨some entry.1, [⟨some entry.1, responseOutcome frame⟩]⟩

theorem RemoteHub.Sound.settles (hh : h.Sound) {isOpen : Bool} (hopen : h.closed = !isOpen) :
  h.Settles isOpen
  := by
  have hpend : isOpen = false → h.pending = [] := by
    rintro rfl
    exact hh.closed hopen
  constructor
  · intro i c hc
    rcases hh.settled i c hc with ⟨entry, hentry, rfl⟩ | hset
    · left
      rw [hh.waiting entry hentry] at hc
      cases hc
      refine ⟨rfl, ?_, entry, hentry, rfl⟩
      by_contra hshut
      rw [hpend (Bool.not_eq_true _ ▸ hshut)] at hentry
      cases hentry
    · exact Or.inr hset
  · exact hpend
  · intro entry hentry
    rw [RemoteHub.timeout, hh.find_of_mem hentry]
    dsimp only
    rw [RemoteHub.calls_settle]
    change (h.calls[entry.2.call]?).map _ = _
    rw [hh.waiting entry hentry, Option.map_some, if_pos rfl]
    rfl
  intro entry hentry frame hid
  rw [RemoteHub.acceptResult, hid]
  dsimp only
  rw [hh.find_of_mem hentry]
  dsimp only
  rw [RemoteHub.calls_settle]
  change (h.calls[entry.2.call]?).map _ = _
  rw [hh.waiting entry hentry, Option.map_some, if_pos rfl]
  rfl

end Hub

/-! ### The connections of a registry -/

/-- The connection and its hub are closed. -/
def Connection.shut (c : Connection) : Connection :=
  { c with isOpen := false, hub := c.hub.map RemoteHub.close }

/-- The hub of a connection is open as long as the connection is. -/
def Connection.Sound (c : Connection) : Prop :=
  ∀ h, c.hub = some h → h.Sound ∧ h.closed = !c.isOpen

theorem Connection.Sound.shut {c : Connection} (hc : c.Sound) :
  c.shut.Sound
  := by
  intro h hh
  obtain ⟨g, hg, rfl⟩ := Option.map_eq_some_iff.mp hh
  exact ⟨(hc g hg).1.close, RemoteHub.closed_close⟩

/-- What holds of a registry after any run. -/
structure Registry.Sound (r : Registry) : Prop where
  conns : ∀ (k : ℕ) (c : Connection), r.conns[k]? = some c → c.Sound
  current : ∀ k c, r.conns[k]? = some c → (r.instances c.client = some k ↔ c.isOpen ∧ c.hub.isSome)
  instances : ∀ client k, r.instances client = some k →
    ∃ c, r.conns[k]? = some c ∧ c.client = client
  registered : ∀ k, k ∈ r.registered ↔ ∃ c, r.conns[k]? = some c ∧ c.hub.isSome

section Registry

variable {r : Registry} {k : ℕ}

theorem Connection.shut_shut (c : Connection) :
  c.shut.shut = c.shut
  := by
  obtain ⟨client, isOpen, hub⟩ := c
  cases hub with
  | none => rfl
  | some h => simp [Connection.shut, RemoteHub.close_of_closed RemoteHub.closed_close]

theorem Registry.conns_onHub (f : RemoteHub → RemoteHub) (i : ℕ) :
  (r.onHub k f).conns[i]? =
    (r.conns[i]?).map fun c => if k = i then { c with hub := c.hub.map f } else c
  := by
  rw [Registry.onHub, List.getElem?_modify]
  cases r.conns[i]? with
  | none | some c => rfl

theorem Registry.conns_unregister (client : String) :
  (r.unregister client k).conns = r.conns
  := by
  rw [Registry.unregister]
  split_ifs
  · rfl
  · rfl

variable {c : Connection}

/-- A connection that is open is shut, with its hub. -/
theorem Registry.conns_terminate_of_open (hc : r.conns[k]? = some c) (hopen : c.isOpen) (i : ℕ) :
  (r.terminate k).conns[i]? = (r.conns[i]?).map fun c => if k = i then c.shut else c
  := by
  rw [Registry.terminate, hc]
  dsimp only
  rw [if_pos hopen]
  have hconns : ∀ i, (r.conns.modify k fun c => { c with isOpen := false })[i]? =
      (r.conns[i]?).map fun c => if k = i then { c with isOpen := false } else c := by
    intro i
    rw [List.getElem?_modify]
    cases r.conns[i]? with
    | none | some d => rfl
  cases hhub : c.hub with
  | none =>
    rw [Option.isSome_none, if_neg Bool.false_ne_true, hconns]
    by_cases hi : k = i
    · rw [← hi, hc, Option.map_some, Option.map_some, if_pos rfl, if_pos rfl, Connection.shut,
        hhub, Option.map_none]
    · simp only [if_neg hi]
  | some h =>
  rw [Option.isSome_some, if_pos rfl, Registry.conns_onHub, Registry.conns_unregister, hconns,
    Option.map_map]
  congr 1
  funext d
  rw [Function.comp]
  split_ifs
  · rfl
  · rfl

theorem Registry.terminate_of_closed (hc : r.conns[k]? = some c) (hshut : c.isOpen = false) :
  r.terminate k = r
  := by
  rw [Registry.terminate, hc]
  dsimp only
  rw [hshut, if_neg Bool.false_ne_true]

theorem Registry.terminate_of_none (hnone : r.conns[k]? = none) :
  r.terminate k = r
  := by
  rw [Registry.terminate, hnone]

/-- The hub of a connection is closed, and then the connection is. -/
theorem Registry.conns_close_terminate (i : ℕ) :
  ((r.onHub k RemoteHub.close).terminate k).conns[i]? =
    (r.conns[i]?).map fun c => if k = i then c.shut else c
  := by
  cases hc : r.conns[k]? with
  | none =>
    rw [Registry.terminate_of_none (by rw [Registry.conns_onHub, hc]; rfl), Registry.conns_onHub]
    by_cases hi : k = i
    · rw [← hi, hc]
      rfl
    · simp only [if_neg hi]
  | some c =>
  have hhub : (r.onHub k RemoteHub.close).conns[k]? =
      some { c with hub := c.hub.map RemoteHub.close } := by
    rw [Registry.conns_onHub, hc, Option.map_some, if_pos rfl]
  cases hopen : c.isOpen with
  | true =>
    rw [Registry.conns_terminate_of_open hhub hopen, Registry.conns_onHub, Option.map_map]
    congr 1
    funext d
    rw [Function.comp]
    split_ifs
    · obtain ⟨client, isOpen, hub⟩ := d
      cases hub with
      | none => rfl
      | some h => simp [Connection.shut, RemoteHub.close_of_closed RemoteHub.closed_close]
    · rfl
  | false =>
  rw [Registry.terminate_of_closed hhub hopen, Registry.conns_onHub]
  by_cases hi : k = i
  · rw [← hi, hc, Option.map_some, Option.map_some, if_pos rfl, if_pos rfl,
      Connection.shut, ← hopen]
  · simp only [if_neg hi]

theorem Registry.registered_terminate :
  (r.terminate k).registered = r.registered
  := by
  rw [Registry.terminate]
  split
  · rfl
  split_ifs
  · rw [Registry.onHub, Registry.unregister]
    split_ifs
    · rfl
    · rfl
  · rfl
  · rfl

/-- A connection that the registry has is taken out of it when it is closed. -/
theorem Registry.instances_terminate (hc : r.conns[k]? = some c) (hopen : c.isOpen) :
  (r.terminate k).instances =
    if c.hub.isSome ∧ r.instances c.client = some k then
      setInstance r.instances c.client none
    else r.instances
  := by
  rw [Registry.terminate, hc]
  dsimp only
  rw [if_pos hopen]
  cases c.hub with
  | none => simp
  | some h =>
  rw [Option.isSome_some, if_pos rfl, Registry.onHub, Registry.unregister]
  dsimp only
  split_ifs with hcur hboth hboth
  · rfl
  · exact absurd ⟨rfl, hcur⟩ hboth
  · exact absurd hboth.2 hcur
  · rfl

/-- All the connections of a list are shut. -/
theorem Registry.conns_shutAll (ks : List ℕ) (i : ℕ) :
  (ks.foldl (fun r k => (r.onHub k RemoteHub.close).terminate k) r).conns[i]? =
      (r.conns[i]?).map (fun c => if i ∈ ks then c.shut else c) ∧
    (ks.foldl (fun r k => (r.onHub k RemoteHub.close).terminate k) r).registered = r.registered
  := by
  induction ks generalizing r with
  | nil => simp
  | cons k ks ih =>
  obtain ⟨hconns, hreg⟩ := @ih ((r.onHub k RemoteHub.close).terminate k)
  rw [foldl_cons, hconns, hreg, Registry.conns_close_terminate,
    Registry.registered_terminate, Option.map_map]
  refine ⟨?_, rfl⟩
  congr 1
  funext c
  simp only [Function.comp, mem_cons]
  by_cases hk : k = i
  · simp only [hk, if_true, true_or, Connection.shut_shut, ite_self]
  · simp only [hk, Ne.symm hk, if_false, false_or]

theorem setInstance_eq {instances : String → Option ℕ} {client : String} {k i : Option ℕ}
    {other : String} :
  setInstance instances client k other = i ↔
    other = client ∧ k = i ∨ other ≠ client ∧ instances other = i
  := by
  rw [setInstance]
  split_ifs with h
  · simp [h]
  · simp [h]

/-- A connection that the registry has is open and has a hub. -/
theorem Registry.Sound.of_instances (hr : r.Sound) {client : String}
    (h : r.instances client = some k) :
  ∃ c, r.conns[k]? = some c ∧ c.client = client ∧ c.isOpen ∧ c.hub.isSome
  := by
  obtain ⟨c, hc, rfl⟩ := hr.instances client k h
  exact ⟨c, hc, rfl, (hr.current k c hc).mp h⟩

theorem Registry.sound_empty : Registry.empty.Sound where
  conns := nofun
  current := nofun
  instances := nofun
  registered k := by simp [Registry.empty]

/-- A change of the hub of a connection that keeps it sound and open. -/
theorem Registry.Sound.onHub (hr : r.Sound) {f : RemoteHub → RemoteHub}
    (hsound : ∀ h, h.Sound → (f h).Sound) (hshut : ∀ h, (f h).closed = h.closed) :
  (r.onHub k f).Sound
  := by
  have hconns : ∀ (i : ℕ) (c : Connection), (r.onHub k f).conns[i]? = some c →
      ∃ d, r.conns[i]? = some d ∧ c.client = d.client ∧ c.isOpen = d.isOpen ∧
        c.hub.isSome = d.hub.isSome ∧ (d.Sound → c.Sound) := by
    intro i c hc
    rw [Registry.conns_onHub] at hc
    obtain ⟨d, hd, rfl⟩ := Option.map_eq_some_iff.mp hc
    refine ⟨d, hd, ?_⟩
    split_ifs
    · refine ⟨rfl, rfl, Option.isSome_map, ?_⟩
      intro hdsound h hh
      obtain ⟨g, hg, rfl⟩ := Option.map_eq_some_iff.mp hh
      exact ⟨hsound g (hdsound g hg).1, (hshut g).trans (hdsound g hg).2⟩
    · exact ⟨rfl, rfl, rfl, id⟩
  constructor
  · intro i c hc
    obtain ⟨d, hd, -, -, -, hsound⟩ := hconns i c hc
    exact hsound (hr.conns i d hd)
  · intro i c hc
    obtain ⟨d, hd, hcli, hopen, hhub, -⟩ := hconns i c hc
    rw [hcli, hopen, hhub]
    exact hr.current i d hd
  · intro client i h
    obtain ⟨c, hc, hcli⟩ := hr.instances client i h
    refine ⟨if k = i then { c with hub := c.hub.map f } else c, ?_, ?_⟩
    · rw [Registry.conns_onHub, hc, Option.map_some]
    · split_ifs
      all_goals exact hcli
  intro i
  rw [show (r.onHub k f).registered = r.registered from rfl, hr.registered]
  constructor
  · rintro ⟨c, hc, hhub⟩
    refine ⟨if k = i then { c with hub := c.hub.map f } else c, ?_, ?_⟩
    · rw [Registry.conns_onHub, hc, Option.map_some]
    · split_ifs
      · rw [Option.isSome_map, hhub]
      · exact hhub
  · rintro ⟨c, hc, hhub⟩
    obtain ⟨d, hd, -, -, hsome, -⟩ := hconns i c hc
    exact ⟨d, hd, hsome ▸ hhub⟩

theorem Registry.Sound.attach (hr : r.Sound) (client : String) :
  Registry.Sound { r with conns := r.conns ++ [⟨client, true, none⟩] }
  := by
  have hconns : ∀ (i : ℕ) (c : Connection),
      (r.conns ++ [(⟨client, true, none⟩ : Connection)])[i]? = some c →
      r.conns[i]? = some c ∨ c = ⟨client, true, none⟩ ∧ i = r.conns.length := by
    intro i c hc
    rw [List.getElem?_append] at hc
    split_ifs at hc with hi
    · exact Or.inl hc
    rw [List.getElem?_singleton] at hc
    split_ifs at hc
    cases hc
    exact Or.inr ⟨rfl, by omega⟩
  have hold : ∀ (i : ℕ) (c : Connection), r.conns[i]? = some c →
      (r.conns ++ [(⟨client, true, none⟩ : Connection)])[i]? = some c := by
    intro i c hc
    rw [List.getElem?_append_left (List.getElem?_eq_some_iff.mp hc).1, hc]
  constructor
  · intro i c hc
    rcases hconns i c hc with hc | ⟨rfl, -⟩
    · exact hr.conns i c hc
    · exact nofun
  · intro i c hc
    rcases hconns i c hc with hc | ⟨rfl, rfl⟩
    · exact hr.current i c hc
    constructor
    · intro h
      obtain ⟨c, hc, -⟩ := hr.instances _ _ h
      rw [List.getElem?_eq_none (le_refl _)] at hc
      cases hc
    · rintro ⟨-, ⟨⟩⟩
  · intro other i h
    obtain ⟨c, hc, hcli⟩ := hr.instances other i h
    exact ⟨c, hold i c hc, hcli⟩
  intro i
  change i ∈ r.registered ↔ _
  rw [hr.registered]
  constructor
  · rintro ⟨c, hc, hhub⟩
    exact ⟨c, hold i c hc, hhub⟩
  rintro ⟨c, hc, hhub⟩
  rcases hconns i c hc with hc | ⟨rfl, -⟩
  · exact ⟨c, hc, hhub⟩
  · cases hhub

/-- Connections are shut, and the registry has them no more. -/
theorem Registry.Sound.shut
    (hr : r.Sound) {s : Registry} {ks : ℕ → Prop} [DecidablePred ks]
    (hconns : ∀ i, s.conns[i]? = (r.conns[i]?).map fun c => if ks i then c.shut else c)
    (hinsts : ∀ client i, s.instances client = some i ↔ r.instances client = some i ∧ ¬ ks i)
    (hreg : s.registered = r.registered) :
  s.Sound
  := by
  constructor
  · intro i c hc
    rw [hconns] at hc
    obtain ⟨d, hd, rfl⟩ := Option.map_eq_some_iff.mp hc
    split_ifs
    · exact (hr.conns i d hd).shut
    · exact hr.conns i d hd
  · intro i c hc
    rw [hconns] at hc
    obtain ⟨d, hd, rfl⟩ := Option.map_eq_some_iff.mp hc
    rw [hinsts]
    split_ifs with hi
    · simp [hi, Connection.shut]
    · rw [hr.current i d hd, and_iff_left hi]
  · intro client i h
    obtain ⟨c, hc, hcli⟩ := hr.instances client i ((hinsts client i).mp h).1
    refine ⟨if ks i then c.shut else c, ?_, ?_⟩
    · rw [hconns, hc, Option.map_some]
    · split_ifs
      all_goals exact hcli
  intro i
  rw [hreg, hr.registered]
  constructor
  · rintro ⟨c, hc, hhub⟩
    refine ⟨if ks i then c.shut else c, by rw [hconns, hc, Option.map_some], ?_⟩
    split_ifs
    · rw [Connection.shut, Option.isSome_map, hhub]
    · exact hhub
  rintro ⟨c, hc, hhub⟩
  rw [hconns] at hc
  obtain ⟨d, hd, rfl⟩ := Option.map_eq_some_iff.mp hc
  refine ⟨d, hd, ?_⟩
  split_ifs at hhub
  · rwa [Connection.shut, Option.isSome_map] at hhub
  · exact hhub

theorem Registry.Sound.terminate (hr : r.Sound) (k : ℕ) :
  (r.terminate k).Sound
  := by
  cases hc : r.conns[k]? with
  | none =>
    rw [Registry.terminate_of_none hc]
    exact hr
  | some c =>
  cases hopen : c.isOpen with
  | false =>
    rw [Registry.terminate_of_closed hc hopen]
    exact hr
  | true =>
  refine hr.shut (Registry.conns_terminate_of_open hc hopen) ?_
    Registry.registered_terminate
  intro client i
  rw [Registry.instances_terminate hc hopen]
  split_ifs with hcur
  · rw [setInstance_eq]
    constructor
    · rintro (⟨-, ⟨⟩⟩ | ⟨hne, h⟩)
      refine ⟨h, ?_⟩
      rintro rfl
      obtain ⟨d, hd, hcli⟩ := hr.instances client k h
      rw [hc] at hd
      cases hd
      exact hne hcli.symm
    rintro ⟨h, hne⟩
    refine Or.inr ⟨?_, h⟩
    rintro rfl
    exact hne (Option.some.inj (hcur.2.symm.trans h))
  rw [iff_self_and]
  rintro h rfl
  obtain ⟨d, hd, hcli, -, hhub⟩ := hr.of_instances h
  rw [hc] at hd
  cases hd
  exact hcur ⟨hhub, by rw [hcli, h]⟩

theorem Registry.Sound.closeAll (hr : r.Sound) :
  r.closeAll.Sound
  := by
  obtain ⟨hconns, hreg⟩ := forall_and.mp fun i =>
    @Registry.conns_shutAll r (r.registered.filter r.isCurrent) i
  refine hr.shut hconns ?_ (hreg 0)
  intro client i
  constructor
  · rintro ⟨⟩
  rintro ⟨h, hnot⟩
  obtain ⟨c, hc, rfl, -, hhub⟩ := hr.of_instances h
  apply absurd _ hnot
  rw [mem_filter, Registry.isCurrent, hc]
  exact ⟨(hr.registered i).mpr ⟨c, hc, hhub⟩, decide_eq_true h⟩

/-- A connection registers for a client that the registry has no connection for. -/
theorem Registry.Sound.admit
    (hr : r.Sound) {s : Registry} (hc : r.conns[k]? = some c)
    (hopen : c.isOpen) (hfree : r.instances c.client = none) (hconns : ∀ i, s.conns[i]? =
      (r.conns[i]?).map fun d => if k = i then { d with hub := some .new } else d)
    (hinsts : s.instances = setInstance r.instances c.client (some k))
    (hreg : s.registered = r.registered ++ [k]) :
  s.Sound
  := by
  constructor
  · intro i d hd
    rw [hconns] at hd
    obtain ⟨e, he, rfl⟩ := Option.map_eq_some_iff.mp hd
    split_ifs with hi
    · intro h hh
      cases hh
      rw [← hi, hc] at he
      cases he
      exact ⟨RemoteHub.sound_new, by rw [hopen]; rfl⟩
    · exact hr.conns i e he
  · intro i d hd
    rw [hconns] at hd
    obtain ⟨e, he, rfl⟩ := Option.map_eq_some_iff.mp hd
    rw [hinsts, setInstance_eq]
    split_ifs with hi
    · rw [← hi, hc] at he
      cases he
      simp [hi, hopen]
    rw [← hr.current i e he]
    constructor
    · rintro (⟨-, hk⟩ | ⟨-, h⟩)
      · exact absurd (Option.some.inj hk) hi
      · exact h
    intro h
    refine Or.inr ⟨?_, h⟩
    intro hcli
    rw [hcli, hfree] at h
    cases h
  · intro client i h
    rw [hinsts, setInstance_eq] at h
    rcases h with ⟨rfl, hk⟩ | ⟨-, h⟩
    · cases hk
      exact ⟨{ c with hub := some .new }, by rw [hconns, hc, Option.map_some, if_pos rfl], rfl⟩
    obtain ⟨d, hd, hcli⟩ := hr.instances client i h
    refine ⟨if k = i then { d with hub := some .new } else d, ?_, ?_⟩
    · rw [hconns, hd, Option.map_some]
    · split_ifs
      all_goals exact hcli
  intro i
  rw [hreg, mem_append, mem_singleton, hr.registered]
  constructor
  · rintro (⟨d, hd, hhub⟩ | rfl)
    · refine ⟨if k = i then { d with hub := some .new } else d,
        by rw [hconns, hd, Option.map_some], ?_⟩
      split_ifs
      · rfl
      · exact hhub
    · exact ⟨{ c with hub := some .new }, by rw [hconns, hc, Option.map_some, if_pos rfl], rfl⟩
  rintro ⟨d, hd, hhub⟩
  rw [hconns] at hd
  obtain ⟨e, he, rfl⟩ := Option.map_eq_some_iff.mp hd
  split_ifs at hhub with hi
  · exact Or.inr hi.symm
  · exact Or.inl ⟨e, he, hhub⟩

theorem Registry.Sound.register (hr : r.Sound) (k : ℕ) :
  (r.register k).Sound
  := by
  rw [Registry.register]
  cases hc : r.conns[k]? with
  | none => exact hr
  | some c =>
  dsimp only
  split_ifs with hfirst
  · have hmodify : ∀ i, (r.conns.modify k fun c => { c with hub := some .new })[i]? =
        (r.conns[i]?).map fun d => if k = i then { d with hub := some .new } else d := by
      intro i
      rw [List.getElem?_modify]
      cases r.conns[i]? with
      | none | some d => rfl
    cases hprev : r.instances c.client with
    | none => exact hr.admit hc hfirst.1 hprev hmodify rfl rfl
    | some previous =>
    obtain ⟨d, hd, hcli, hdopen, hdhub⟩ := hr.of_instances hprev
    have hne : previous ≠ k := by
      rintro rfl
      rw [hc] at hd
      cases hd
      rw [Option.isSome_iff_ne_none] at hdhub
      exact hdhub (Option.isNone_iff_eq_none.mp hfirst.2)
    -- The connection that is replaced is shut first.
    let conns := r.conns.mapIdx fun i c => if previous = i then c.shut else c
    have hfree : Registry.Sound { r with
        instances := setInstance r.instances c.client none
        conns := conns } := by
      refine @Registry.Sound.shut _ hr _ (fun i => previous = i) _ ?_ ?_ ?_
      · intro i
        exact List.getElem?_mapIdx
      · intro client i
        rw [setInstance_eq]
        constructor
        · rintro (⟨-, ⟨⟩⟩ | ⟨hother, h⟩)
          refine ⟨h, ?_⟩
          rintro rfl
          obtain ⟨e, he, heclient⟩ := hr.instances client previous h
          rw [hd] at he
          cases he
          exact hother (heclient.symm.trans hcli)
        rintro ⟨h, hnot⟩
        refine Or.inr ⟨?_, h⟩
        rintro rfl
        exact hnot (Option.some.inj (hprev.symm.trans h))
      · rfl
    have hconns : ∀ i, conns[i]? = (r.conns[i]?).map fun c =>
        if previous = i then c.shut else c := fun i => List.getElem?_mapIdx
    have hckept : conns[k]? = some c := by
      rw [hconns, hc, Option.map_some, if_neg hne]
    refine hfree.admit hckept hfirst.1 (setInstance_eq.mpr (Or.inl ⟨rfl, rfl⟩)) ?_ ?_ ?_
    · intro i
      rw [Registry.conns_close_terminate]
      dsimp only
      rw [hmodify, hconns, Option.map_map, Option.map_map]
      congr 1
      funext e
      rw [Function.comp, Function.comp]
      by_cases hi : previous = i
      · have hk : k ≠ i := fun hk => hne (hi.trans hk.symm)
        rw [if_neg hk, if_pos hi, if_neg hk]
      · rw [if_neg hi, if_neg hi]
    · have hshut : ∀ q : Registry, q.instances = setInstance r.instances c.client none →
          q.conns[previous]? = some { d with hub := d.hub.map RemoteHub.close } →
          (q.terminate previous).instances = setInstance r.instances c.client none := by
        intro q hq hqd
        rw [Registry.instances_terminate hqd hdopen, if_neg, hq]
        rintro ⟨-, h⟩
        rw [hq, setInstance, if_pos hcli] at h
        cases h
      dsimp only
      rw [hshut _ rfl]
      rw [Registry.conns_onHub]
      dsimp only
      rw [hmodify, hd, Option.map_some, Option.map_some, if_neg (Ne.symm hne), if_pos rfl]
    · rw [Registry.registered_terminate]
      rfl
  · exact hr

theorem Registry.Sound.step (hr : r.Sound) (a : Action) :
  (r.step a).Sound
  := by
  cases a with
  | attach client => exact hr.attach client
  | register k => exact hr.register k
  | drop k => exact hr.terminate k
  | response k frame =>
    rw [Registry.step]
    split_ifs
    · apply hr.onHub
      · exact fun h hh => hh.acceptResult frame
      intro h
      rw [RemoteHub.acceptResult]
      split
      · rfl
      · split
        all_goals rfl
    · exact hr
  | call k method =>
    apply hr.onHub
    · exact fun h hh => hh.call method
    intro h
    rw [RemoteHub.call]
    split_ifs
    · rfl
    · rfl
  | timeout k id =>
    apply hr.onHub
    · exact fun h hh => hh.timeout id
    intro h
    rw [RemoteHub.timeout]
    split
    · rfl
    · rfl
  | closeAll => exact hr.closeAll

/-- Any run leads to a sound registry. -/
theorem Registry.sound_run (as : List Action) :
  (Registry.run as).Sound
  := by
  induction as using List.reverseRecOn with
  | nil => exact Registry.sound_empty
  | append_singleton as a ih =>
    have hstep : Registry.run (as ++ [a]) = (Registry.run as).step a := foldl_append
    rw [hstep]
    exact ih.step a

end Registry

/-- The connection is open and belongs to the client. -/
def Registry.serves (r : Registry) (client : String) (k : ℕ) : Bool :=
  (r.conns[k]?).any fun c => c.isOpen && c.client = client

/-- The registry has the connection of a client that registered last, of those that are open. -/
theorem Registry.Sound.instances_eq {r : Registry} (hr : r.Sound) (client : String) :
  r.instances client = (r.registered.filter (r.serves client)).getLast?
  := by
  have hserv : ∀ k, k ∈ r.registered.filter (r.serves client) ↔ r.instances client = some k := by
    intro k
    rw [mem_filter, hr.registered, Registry.serves]
    constructor
    · rintro ⟨⟨c, hc, hhub⟩, hserv⟩
      rw [hc, Option.any_some, Bool.and_eq_true_iff, decide_eq_true_eq] at hserv
      rw [← hserv.2]
      exact (hr.current k c hc).mpr ⟨hserv.1, hhub⟩
    intro h
    obtain ⟨c, hc, hcli, hopen, hhub⟩ := hr.of_instances h
    refine ⟨⟨c, hc, hhub⟩, ?_⟩
    rw [hc, Option.any_some, hopen, hcli]
    simp
  cases hlast : (r.registered.filter (r.serves client)).getLast? with
  | none =>
    rw [List.getLast?_eq_none_iff] at hlast
    rw [hlast] at hserv
    cases hinstance : r.instances client with
    | none => rfl
    | some k => exact absurd ((hserv k).mpr hinstance) not_mem_nil
  | some k => exact (hserv k).mp (mem_of_getLast? hlast)

end Gateway
