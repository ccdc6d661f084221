import VolundCode.AppRuntime.PluginState
import VolundCode.Lib.Indexed

/-!
# Approval of plugins

What a step of the plugin state store can do (`moves_of_step`), and what it keeps: the entries are
those of the load with the changes of the calls that have changed them (`Kept.step`), a market
plugin is enabled only if it is approved (`Entries.enabledApproved`), an approval comes from a call
of `approve` that has found the entry with these permissions (`Entries.granted`), and as long as no
entry is put back that was discovered anew since it was read, the entries describe what was
discovered last (`Described.step`).
-/

namespace AppRuntime.PluginState

open List

variable (sha256 : List Char → String)

/-! ### What a step does -/

/-- A call that has not changed anything yet. -/
def Stage.Early : Stage → Prop
  | .initializing => True
  | .required _ => True
  | _ => False

/-- A call in `persist`. -/
def Stage.Late : Stage → Prop
  | .directory _ => True
  | .writing _ _ _ => True
  | .renaming _ _ => True
  | _ => False

/-- What `approve` and `setEnabled` make of the entry they have read. -/
inductive Decided : Request → LocalPluginStateEntry → LocalPluginStateEntry → Prop where
  | approve {name : String} {entry : LocalPluginStateEntry} :
      Decided (.approve name entry.permissionHash) entry
        { entry with
          approvedVersion := some entry.version
          approvedPermissionHash := some entry.permissionHash }
  | setEnabled {name : String} {enabled : Bool} {entry : LocalPluginStateEntry}
      (h : enabled → isPluginApproved entry) :
      Decided (.setEnabled name enabled) entry { entry with enabled }

/-- An operation on the disk that does not succeed. -/
def Fails (s : State) : Action → Prop
  | .mkdir _ ok _ => ok = false
  | .write _ ok _ => ok = false
  | .rename i ok =>
    ok = false ∨ ∃ request answer temporary,
      s.calls[i]? = some ⟨request, .renaming answer temporary⟩ ∧ s.temporaries temporary = none
  | _ => False

/-- The steps of the store. -/
inductive Moves (s : State) : Action → State → Prop where
  | call (request : Request) : Moves s (.call request) (s.call request)
  | load (ok : Bool) (hready : s.ready = .loading) : Moves s (.load ok) (s.load ok)
  | settle {a : Action} {i : ℕ} {request : Request} {stage : Stage}
      {result : Except PluginError (Option LocalPluginStateEntry)}
      (hcall : s.calls[i]? = some ⟨request, stage⟩) (hearly : stage.Early)
      (hres : result ≠ .error .io) : Moves s a (s.settle i request result)
  | require {i : ℕ} {request : Request} (hcall : s.calls[i]? = some ⟨request, .initializing⟩)
      (hready : s.ready = .loaded) : Moves s (.initialized i) (s.require i request request.name)
  | discover {i : ℕ} {manifest : PluginManifest} {source : LocalPluginSource} {dir : String}
      (hcall : s.calls[i]? = some ⟨.discover manifest source dir, .initializing⟩)
      (hready : s.ready = .loaded) :
      Moves s (.initialized i) (s.initialized sha256 i (.discover manifest source dir))
  | remove {i : ℕ} {name : String} (hcall : s.calls[i]? = some ⟨.remove name, .initializing⟩)
      (hready : s.ready = .loaded) :
      Moves s (.initialized i) (s.change i (.remove name) (.delete name) none)
  | put {i : ℕ} {request : Request} {entry next : LocalPluginStateEntry}
      (hcall : s.calls[i]? = some ⟨request, .required (some entry)⟩)
      (hnext : Decided request entry next) :
      Moves s (.decide i) (s.change i request (.put request.name next) (some next))
  | mkdir {i now : ℕ} {request : Request} {answer : Option LocalPluginStateEntry}
      (hcall : s.calls[i]? = some ⟨request, .directory answer⟩) :
      Moves s (.mkdir i true now)
        { s.setStage i request (.writing answer now (stateJson s.plugins)) with
          queue := s.queue ++ [Writing.mk i now (stateJson s.plugins)] }
  | write {i temporary : ℕ} {request : Request} {answer : Option LocalPluginStateEntry}
      {content : Json} {left : Option Contents}
      (hcall : s.calls[i]? = some ⟨request, .writing answer temporary content⟩) :
      Moves s (.write i true left)
        { s.setStage i request (.renaming answer temporary) with
          temporaries := Function.update s.temporaries temporary (some (.value content)) }
  | rename {i temporary : ℕ} {request : Request} {answer : Option LocalPluginStateEntry}
      {content : Contents} (hcall : s.calls[i]? = some ⟨request, .renaming answer temporary⟩)
      (hcont : s.temporaries temporary = some content) :
      Moves s (.rename i true)
        { s.settle i request (.ok answer) with
          temporaries := Function.update s.temporaries temporary none
          file := some content
          queue := s.queue.filter (·.call ≠ i) }
  | fail {a : Action} {i : ℕ} {request : Request} {stage : Stage}
      {temporaries : ℕ → Option Contents} {queue : List Writing}
      (hcall : s.calls[i]? = some ⟨request, stage⟩) (hlate : stage.Late) (hfails : Fails s a) :
      Moves s a
        { s.settle i request (.error .io) with temporaries := temporaries, queue := queue }

variable {request : Request} {i : ℕ}

theorem moves_of_decide {s s' : State} {entry : Option LocalPluginStateEntry}
    (hcall : s.calls[i]? = some ⟨request, .required entry⟩)
    (h : s.decide i request entry = some s') :
  Moves sha256 s (.decide i) s'
  := by
  unfold State.decide at h
  split at h
  · cases h
    apply Moves.settle hcall trivial (by simp)
  · split_ifs at h with hstale
    · cases h
      apply Moves.settle hcall trivial (by simp)
    · cases h
      obtain rfl := not_not.mp hstale
      apply Moves.put hcall Decided.approve
  · cases h
    apply Moves.settle hcall trivial (by simp)
  · split_ifs at h with hreq
    · cases h
      apply Moves.settle hcall trivial (by simp)
    cases h
    apply Moves.put hcall
    apply Decided.setEnabled
    intro hon
    simpa [hon] using hreq
  · cases h

theorem moves_of_initialized {s : State}
    (hcall : s.calls[i]? = some ⟨request, .initializing⟩) (hready : s.ready = .loaded) :
  Moves sha256 s (.initialized i) (s.initialized sha256 i request)
  := by
  cases request with
  | init => apply Moves.settle hcall trivial (by simp)
  | discover manifest source dir => apply Moves.discover hcall hready
  | approve name expectedPermissionHash | setEnabled name enabled =>
    apply Moves.require hcall hready
  | remove name =>
  unfold State.initialized
  dsimp only
  split_ifs
  · apply Moves.remove hcall hready
  · apply Moves.settle hcall trivial (by simp)

variable {a : Action}

/-- Every step is one of these. -/
theorem moves_of_step {s s' : State} (h : step sha256 s a = some s') :
  Moves sha256 s a s'
  := by
  cases a with
  | call request =>
    cases h
    apply Moves.call
  | load ok =>
    rw [step] at h
    split_ifs at h with hready
    cases h
    apply Moves.load ok hready
  | initialized i =>
    rw [step] at h
    split at h
    next request hcall =>
      split at h
      · cases h
        apply Moves.settle hcall trivial (by simp)
      next hready =>
        cases h
        apply moves_of_initialized sha256 hcall hready
      · cases h
    · cases h
  | decide i =>
    rw [step] at h
    split at h
    next request entry hcall => apply moves_of_decide sha256 hcall h
    · cases h
  | mkdir i ok now =>
    rw [step] at h
    split at h
    next request answer hcall =>
      cases ok with
      | true =>
        cases h
        apply Moves.mkdir hcall
      | false =>
        cases h
        apply Moves.fail hcall trivial
        exact (rfl : false = false)
    · cases h
  | write i ok left =>
    rw [step] at h
    split at h
    next request answer temporary content hcall =>
      cases ok with
      | true =>
        cases h
        apply Moves.write hcall
      | false =>
        cases h
        apply Moves.fail hcall trivial
        exact (rfl : false = false)
    · cases h
  | rename i ok =>
  rw [step] at h
  split at h
  next request answer temporary hcall =>
    split at h
    next content hcont =>
      cases h
      cases ok with
      | true => apply Moves.rename hcall hcont
      | false => cases hcont
    next hnone =>
      cases h
      apply Moves.fail hcall trivial
      cases ok with
      | true => exact Or.inr ⟨request, answer, temporary, hcall, hnone⟩
      | false => exact Or.inl rfl
  · cases h

/-! ### What every run keeps -/

/-- A call that the load has come before. -/
def Stage.Started : Stage → Prop
  | .initializing => False
  | .settled _ => False
  | _ => True

/-- A call that may have changed the entries. -/
def Stage.Changed : Stage → Prop
  | .initializing => False
  | .required _ => False
  | .settled (.error e) => e = .io
  | _ => True

/-- What every step keeps: calls go on after the load, the entries are those of the load with the
changes of the calls that have changed them, and what a call has read is kept. -/
structure Kept (s : State) : Prop where
  started : Indexed.Each (fun _ c => c.stage.Started → s.ready = .loaded) s.calls
  unloaded : s.ready ≠ .loaded → s.plugins = [] ∧ s.changes = [] ∧ s.loaded = []
  replay : s.ready = .loaded →
    s.plugins = s.changes.foldl (fun plugins change => change.2.apply plugins) s.loaded
  changed : ∀ change ∈ s.changes, ∃ c, s.calls[change.1]? = some c ∧ c.stage.Changed
  found : Indexed.Each
    (fun i c => ∀ entry, c.stage = .required (some entry) → (i, entry) ∈ s.found) s.calls

theorem kept_start (file : Option Contents) :
  Kept (start file)
  := by
  constructor
  · apply Indexed.Each.nil
  · intro _
    exact ⟨rfl, rfl, rfl⟩
  · intro h
    cases h
  · intro change h
    cases h
  · apply Indexed.Each.nil

theorem getElem?_set_of_some {α : Type} {l : List α} {a b : α} (h : l[i]? = some a) (j : ℕ) :
  (l.set i b)[j]? = if i = j then some b else l[j]?
  := by
  rw [List.getElem?_set, if_pos (List.getElem?_eq_some_iff.mp h).1]

variable {stage : Stage}

/-- The calls that have changed the entries, when one that has not is put into another stage, or
one that has into another stage of those that have. -/
theorem Kept.changed_set {s : State} (h : Kept s)
    {stage' : Stage} (hcall : s.calls[i]? = some ⟨request, stage⟩)
    (hstage : stage.Changed → stage'.Changed) :
  ∀ change ∈ s.changes, ∃ c, (s.calls.set i ⟨request, stage'⟩)[change.1]? = some c ∧ c.stage.Changed
  := by
  intro change hchange
  obtain ⟨c, hc, hchg⟩ := h.changed change hchange
  rw [getElem?_set_of_some hcall]
  by_cases hi : i = change.1
  · rw [if_pos hi]
    refine ⟨_, rfl, hstage ?_⟩
    rw [← hi, hcall] at hc
    cases hc
    apply hchg
  · rw [if_neg hi]
    use c

/-- A call that changes the entries. -/
theorem Kept.change {s : State} (h : Kept s)
    (hcall : s.calls[i]? = some ⟨request, stage⟩) (hready : s.ready = .loaded) (change : Change)
    (answer : Option LocalPluginStateEntry) :
  Kept (s.change i request change answer)
  := by
  constructor
  · apply h.started.set
    intro _
    apply hready
  · intro hnot
    cases hnot hready
  · intro _
    dsimp only [State.change, State.setStage]
    rw [foldl_append, ← h.replay hready]
    rfl
  · intro change' hmem
    rcases mem_append.mp hmem with hmem | hmem
    · have hdir : (Stage.directory answer).Changed := trivial
      apply h.changed_set hcall (fun _ => hdir) change' hmem
    obtain rfl := mem_singleton.mp hmem
    dsimp only [State.change, State.setStage]
    rw [getElem?_set_of_some hcall, if_pos rfl]
    exact ⟨_, rfl, trivial⟩
  · apply h.found.set
    intro entry hentry
    cases hentry

/-- A call goes to a stage in which it waits for nothing that `require` has read. -/
theorem Kept.setStage {s : State} (h : Kept s)
    (stage' : Stage) (hcall : s.calls[i]? = some ⟨request, stage⟩) (hstart : stage'.Started → stage.Started)
    (hchg : stage.Changed → stage'.Changed) (hreq : ∀ entry, stage' ≠ .required entry) :
  Kept (s.setStage i request stage')
  := by
  constructor
  · apply h.started.set
    intro hstage
    apply h.started i _ hcall (hstart hstage)
  · apply h.unloaded
  · apply h.replay
  · apply h.changed_set hcall hchg
  · apply h.found.set
    intro entry hentry
    cases hreq _ hentry

/-- What the invariant does not speak of. -/
theorem Kept.frame {s s' : State} (h : Kept s) (hready : s'.ready = s.ready)
    (hplugs : s'.plugins = s.plugins) (hcalls : s'.calls = s.calls)
    (hload : s'.loaded = s.loaded) (hchg : s'.changes = s.changes) (hfound : s'.found = s.found) :
  Kept s'
  := by
  constructor
  · rw [hcalls, hready]
    apply h.started
  · rw [hready, hplugs, hchg, hload]
    apply h.unloaded
  · rw [hready, hplugs, hchg, hload]
    apply h.replay
  · rw [hchg, hcalls]
    apply h.changed
  · rw [hcalls, hfound]
    apply h.found

theorem Kept.call {s : State} (h : Kept s) (request : Request) :
  Kept (s.call request)
  := by
  have hready : (s.call request).ready = .loaded ↔ s.ready = .loaded := by
    unfold State.call
    dsimp only
    split_ifs with hunasked
    · rw [hunasked]
      constructor
      · intro hload
        cases hload
      · intro hunasked
        cases hunasked
    · exact Iff.rfl
  constructor
  · apply Indexed.Each.concat
    · exact h.started.imp fun i c hc hstart => hready.mpr (hc hstart)
    · intro hstart
      cases hstart
  · rw [Ne, hready]
    apply h.unloaded
  · rw [hready]
    apply h.replay
  · intro change hchange
    obtain ⟨c, hc, hchg⟩ := h.changed change hchange
    refine ⟨c, ?_, hchg⟩
    unfold State.call
    rw [List.getElem?_append_left (List.getElem?_eq_some_iff.mp hc).1]
    apply hc
  · apply h.found.concat
    intro entry hentry
    cases hentry

theorem Kept.load {s : State} (h : Kept s) (ok : Bool) (hready : s.ready = .loading) :
  Kept (s.load ok)
  := by
  have hnot : s.ready ≠ .loaded := by
    rw [hready]
    intro hload
    cases hload
  have hunloaded := h.unloaded hnot
  have hnone {i : ℕ} {c : Call} (hc : s.calls[i]? = some c) : ¬ c.stage.Started := by
    intro hstart
    apply hnot (h.started i c hc hstart)
  unfold State.load
  split
  · constructor
    · intro i c hc hstart
      cases hnone hc hstart
    · intro _
      apply hunloaded
    · intro hfail
      cases hfail
    · apply h.changed
    · apply h.found
  constructor
  · intro i c hc hstart
    cases hnone hc hstart
  · intro hloaded
    cases hloaded rfl
  · intro _
    dsimp only
    rw [hunloaded.2.1]
    rfl
  · apply h.changed
  · apply h.found

/-- Every step keeps the invariant. -/
theorem Kept.step {s s' : State} (h : Kept s) (hmoves : Moves sha256 s a s') :
  Kept s'
  := by
  have hload {i : ℕ} {c : Call} (hc : s.calls[i]? = some c) (hstart : c.stage.Started) :
      s.ready = .loaded := h.started i c hc hstart
  cases hmoves with
  | call request => apply h.call
  | load ok hready => apply h.load ok hready
  | settle hcall hearly hres =>
    apply h.setStage _ hcall
    · intro hstart
      cases hstart
    · intro hchg
      next stage _ => cases stage <;> cases hearly <;> cases hchg
    · intro entry hentry
      cases hentry
  | require hcall hready =>
    constructor
    · apply h.started.set
      intro _
      apply hready
    · intro hnot
      cases hnot hready
    · apply h.replay
    · apply h.changed_set hcall
      intro hchg
      cases hchg
    apply Indexed.Each.set
    · exact h.found.imp fun i c hc entry hentry => mem_append_left _ (hc entry hentry)
    intro entry hentry
    apply mem_append_right
    obtain hentry := Stage.required.inj hentry
    rw [hentry]
    apply mem_singleton_self
  | @discover i manifest source dir hcall hready =>
    have hchange := h.change hcall hready (.put manifest.name (discoveredEntry sha256 manifest
      source dir (Members.get s.plugins manifest.name))) (some (discoveredEntry sha256 manifest
        source dir (Members.get s.plugins manifest.name)))
    apply hchange.frame <;> rfl
  | remove hcall hready => apply h.change hcall hready
  | put hcall hnext => apply h.change hcall (hload hcall trivial)
  | @mkdir i now request answer hcall =>
    have hkept := h.setStage (.writing answer now (stateJson s.plugins)) hcall (fun _ => trivial)
      (fun _ => trivial) (by simp)
    apply hkept.frame <;> rfl
  | @write i temporary request answer content left hcall =>
    have hkept := h.setStage (.renaming answer temporary) hcall (fun _ => trivial)
      (fun _ => trivial) (by simp)
    apply hkept.frame <;> rfl
  | @rename i temporary request answer content hcall hcont =>
    have hkept := h.setStage (.settled (.ok answer)) hcall False.elim (fun _ => trivial) (by simp)
    apply hkept.frame <;> rfl
  | fail hcall hlate hfails =>
    have hkept := h.setStage (.settled (.error .io)) hcall False.elim (fun _ => rfl) (by simp)
    apply hkept.frame <;> rfl

/-! ### What the entries keep -/

/-- A property of the entries under their names, and of those that calls have read. -/
structure Entries (P : String → LocalPluginStateEntry → Prop) (s : State) : Prop where
  plugins : ∀ m ∈ s.plugins, P m.1 m.2
  required : Indexed.Each
    (fun _ c => ∀ entry, c.stage = .required (some entry) → P c.request.name entry) s.calls

theorem entries_start (P : String → LocalPluginStateEntry → Prop) (file : Option Contents) :
  Entries P (start file)
  := by
  constructor
  · intro m h
    cases h
  · apply Indexed.Each.nil

variable {sha256} {P Q : String → LocalPluginStateEntry → Prop} {s s' : State}

theorem Entries.setStage (h : Entries P s) (hstage : ∀ entry, stage ≠ .required (some entry)) :
  Entries P (s.setStage i request stage)
  := by
  constructor
  · apply h.plugins
  · apply h.required.set
    intro entry hentry
    cases hstage entry hentry

/-- A call that changes the entries: what it puts has the property. -/
theorem Entries.change (h : Entries P s) {change : Change} {answer : Option LocalPluginStateEntry}
    (hchg : ∀ name entry, change = .put name entry → P name entry) :
  Entries P (s.change i request change answer)
  := by
  constructor
  · intro m hm
    cases change with
    | put name entry =>
      rcases Members.mem_put hm with rfl | hm
      · apply hchg name entry rfl
      · apply h.plugins m hm
    | delete name => apply h.plugins m (mem_filter.mp hm).1
  · apply h.required.set
    intro entry hentry
    cases hentry

theorem Entries.imp (h : Entries P s) (himp : ∀ name entry, P name entry → Q name entry) :
  Entries Q s
  := by
  constructor
  · intro m hm
    apply himp m.1 m.2 (h.plugins m hm)
  · exact h.required.imp fun i c hc entry hentry => himp _ entry (hc entry hentry)

/-- The property of the entries after a step, from that of the entries before: it is one of those
that the load finds, that `discover` makes and that are put back. -/
theorem Entries.step (h : Entries P s) (hmoves : Moves sha256 s a s')
    (himp : ∀ name entry, P name entry → Q name entry) (hload : ∀ m ∈ s'.loaded, Q m.1 m.2)
    (hdiscover : ∀ (i : ℕ) (manifest : PluginManifest) (source : LocalPluginSource)
      (dir : String) (previous : Option LocalPluginStateEntry), a = .initialized i →
      s.calls[i]? = some ⟨.discover manifest source dir, .initializing⟩ →
      (∀ entry, previous = some entry → Q manifest.name entry) →
        Q manifest.name (discoveredEntry sha256 manifest source dir previous))
    (hnext : ∀ (i : ℕ) (request : Request) (entry next : LocalPluginStateEntry),
      s.calls[i]? = some ⟨request, .required (some entry)⟩ → Q request.name entry →
        Decided request entry next → Q request.name next) :
  Entries Q s'
  := by
  have hQ := h.imp himp
  cases hmoves with
  | call request =>
    constructor
    · apply hQ.plugins
    · apply hQ.required.concat
      intro entry hentry
      cases hentry
  | load ok hready =>
    unfold State.load at hload ⊢
    split
    · constructor
      · apply hQ.plugins
      · apply hQ.required
    next plugins hplugs =>
      rw [hplugs] at hload
      constructor
      · apply hload
      · apply hQ.required
  | settle hcall hearly hres =>
    apply hQ.setStage
    intro entry hentry
    cases hentry
  | require hcall hready =>
    constructor
    · apply hQ.plugins
    · apply hQ.required.set
      intro entry hentry
      apply hQ.plugins _ (Members.mem_of_get (Stage.required.inj hentry))
  | @discover i manifest source dir hcall hready =>
    have hput := hdiscover i manifest source dir _ rfl hcall fun entry hentry =>
      hQ.plugins _ (Members.mem_of_get hentry)
    have hchg : Entries Q (s.change i (.discover manifest source dir)
        (.put manifest.name (discoveredEntry sha256 manifest source dir
          (Members.get s.plugins manifest.name))) none) := by
      apply hQ.change
      intro name entry hentry
      obtain ⟨rfl, rfl⟩ := Change.put.inj hentry
      apply hput
    constructor
    · apply hchg.plugins
    · apply hQ.required.set
      intro entry hentry
      cases hentry
  | remove hcall hready =>
    apply hQ.change
    intro name entry hput
    cases hput
  | @put i request entry next hcall hdec =>
    apply hQ.change
    intro name entry' hput
    obtain ⟨rfl, rfl⟩ := Change.put.inj hput
    apply hnext i request entry next hcall (hQ.required i _ hcall entry rfl) hdec
  | mkdir hcall | write hcall | rename hcall hcont | fail hcall hlate hfails =>
  constructor
  · apply hQ.plugins
  · apply hQ.required.set
    intro entry hentry
    cases hentry

/-! ### Approval -/

/-- A market plugin that is enabled is approved. -/
def EnabledApproved (entry : LocalPluginStateEntry) : Prop :=
  entry.source = .named .market → entry.enabled → isPluginApproved entry

/-- The approval of a market plugin is that of a call of `approve` for the hash, which has found the
entry with the version and the hash, or it has been in the file. -/
def Granted (s : State) (name : String) (entry : LocalPluginStateEntry) : Prop :=
  entry.source = .named .market → ∀ version hash, entry.approvedVersion = some version →
    entry.approvedPermissionHash = some hash →
      (∃ i stage found, s.calls[i]? = some ⟨.approve name hash, stage⟩ ∧ (i, found) ∈ s.found ∧
        found.version = version ∧ found.permissionHash = hash) ∨
      ∃ m ∈ s.loaded, m.1 = name ∧ m.2.approvedVersion = some version ∧
        m.2.approvedPermissionHash = some hash

/-- What is discovered on the market is approved as it was before, or not at all. -/
theorem discoveredEntry_market (sha256 : List Char → String) (manifest : PluginManifest) (dir : String)
    (previous : Option LocalPluginStateEntry) :
  (∃ entry, previous = some entry ∧ entry.source = .named .market ∧
      entry.approvedVersion = some manifest.version ∧
      entry.approvedPermissionHash = some (permissionHash sha256 manifest) ∧
      isPluginApproved (discoveredEntry sha256 manifest .market dir previous) ∧
      (discoveredEntry sha256 manifest .market dir previous).approvedVersion =
        some manifest.version ∧
      (discoveredEntry sha256 manifest .market dir previous).approvedPermissionHash =
        some (permissionHash sha256 manifest)) ∨
    (discoveredEntry sha256 manifest .market dir previous).approvedVersion = none ∧
      (discoveredEntry sha256 manifest .market dir previous).enabled = false
  := by
  cases previous with
  | none =>
    right
    exact ⟨rfl, rfl⟩
  | some entry =>
  by_cases hvalid : (entry.source.is .market && entry.version = manifest.version &&
      entry.approvedVersion = some manifest.version &&
      entry.approvedPermissionHash = some (permissionHash sha256 manifest))
  · left
    have hparts := hvalid
    simp only [Bool.and_eq_true, decide_eq_true_eq] at hparts
    obtain ⟨⟨⟨hsrc, -⟩, hver⟩, hhash⟩ := hparts
    have hmarket : entry.source = .named .market := by
      unfold EntrySource.is at hsrc
      split at hsrc
      next source heq =>
        rw [heq, of_decide_eq_true hsrc]
      · cases hsrc
    refine ⟨entry, rfl, hmarket, hver, hhash, ?_⟩
    simp [discoveredEntry, isPluginApproved, hvalid]
  · right
    rw [Bool.not_eq_true] at hvalid
    simp [discoveredEntry, hvalid]

/-- Only the load changes what has been loaded. -/
theorem Moves.loaded (hmoves : Moves sha256 s a s') (hkept : Kept s) :
  s'.loaded = s.loaded ∨ s.loaded = []
  := by
  cases hmoves with
  | load ok hready =>
    right
    apply (hkept.unloaded _).2.2
    rw [hready]
    intro hload
    cases hload
  | _ => exact Or.inl rfl

/-- What calls have found is kept. -/
theorem Moves.found (hmoves : Moves sha256 s a s') :
  s.found ⊆ s'.found
  := by
  cases hmoves with
  | load ok hready =>
    unfold State.load
    split <;> exact List.Subset.refl _
  | require hcall hready => apply subset_append_left
  | _ => exact List.Subset.refl _

/-- A call keeps its request. -/
theorem Moves.calls (hmoves : Moves sha256 s a s') (hcall : s.calls[i]? = some ⟨request, stage⟩) :
  ∃ stage, s'.calls[i]? = some ⟨request, stage⟩
  := by
  have hset {j : ℕ} {request' : Request} {stage' : Stage} (stage'' : Stage)
      (h : s.calls[j]? = some ⟨request', stage'⟩) :
      ∃ stage, (s.calls.set j ⟨request', stage''⟩)[i]? = some ⟨request, stage⟩ := by
    rw [getElem?_set_of_some h]
    by_cases hj : j = i
    · rw [if_pos hj]
      rw [hj, hcall] at h
      obtain ⟨rfl, -⟩ := Call.mk.inj (Option.some.inj h)
      exact ⟨_, rfl⟩
    · rw [if_neg hj]
      exact ⟨_, hcall⟩
  cases hmoves with
  | call request' =>
    use stage
    unfold State.call
    rw [List.getElem?_append_left (List.getElem?_eq_some_iff.mp hcall).1]
    apply hcall
  | load ok hready =>
    use stage
    unfold State.load
    split <;> exact hcall
  | settle h | require h | discover h | remove h | put h | mkdir h | write h | rename h | fail h =>
    apply hset _ h

/-- The entries stay as they are approved. -/
theorem Entries.enabledApproved (hmoves : Moves sha256 s a s') (hkept : Kept s)
    (h : Entries (fun _ entry => (∀ m ∈ s.loaded, EnabledApproved m.2) → EnabledApproved entry) s) :
  Entries (fun _ entry => (∀ m ∈ s'.loaded, EnabledApproved m.2) → EnabledApproved entry) s'
  := by
  apply h.step hmoves
  · intro name entry hentry hload
    apply hentry
    rcases hmoves.loaded hkept with heq | hnil
    · rw [← heq]
      apply hload
    · rw [hnil]
      apply forall_mem_nil
  · intro m hm hload
    apply hload m hm
  · intro _ manifest source dir previous _ _ hprev hload hmarket hon
    obtain rfl : source = .market := EntrySource.named.inj hmarket
    rcases discoveredEntry_market sha256 manifest dir previous with
      ⟨_, -, -, -, -, happr, -⟩ | ⟨-, hdisabled⟩
    · apply happr
    · rw [hdisabled] at hon
      cases hon
  intro i request entry next hcall hentry hdec hload hmarket hon
  cases hdec with
  | approve => simp [isPluginApproved]
  | setEnabled happr => apply happr hon

/-- Approvals stay granted. -/
theorem Granted.mono (hmoves : Moves sha256 s a s') (hkept : Kept s) {name : String}
    {entry : LocalPluginStateEntry} (h : Granted s name entry) :
  Granted s' name entry
  := by
  intro hmarket version hash hver hhash
  rcases h hmarket version hash hver hhash with
    ⟨i, stage, found, hcall, hfound, heq⟩ | ⟨m, hm, heq⟩
  · left
    obtain ⟨stage', hcall'⟩ := hmoves.calls hcall
    exact ⟨i, stage', found, hcall', hmoves.found hfound, heq⟩
  right
  rcases hmoves.loaded hkept with hload | hnil
  · rw [hload]
    exact ⟨m, hm, heq⟩
  · rw [hnil] at hm
    cases hm

theorem Entries.granted (hmoves : Moves sha256 s a s') (hkept : Kept s)
    (h : Entries (Granted s) s) :
  Entries (Granted s') s'
  := by
  apply h.step hmoves
  · intro name entry hentry
    apply hentry.mono hmoves hkept
  · intro m hm hmarket version hash hver hhash
    right
    exact ⟨m, hm, rfl, hver, hhash⟩
  · intro _ manifest source dir previous _ _ hprev hmarket version hash hver hhash
    obtain rfl : source = .market := EntrySource.named.inj hmarket
    rcases discoveredEntry_market sha256 manifest dir previous with
      ⟨entry, hentry, hsrc, hver', hhash', -, happr, happrovedHash⟩ | ⟨hnone, -⟩
    · rw [hver] at happr
      rw [hhash] at happrovedHash
      rw [← happr] at hver'
      rw [← happrovedHash] at hhash'
      apply hprev entry hentry hsrc version hash hver' hhash'
    · rw [hver] at hnone
      cases hnone
  intro i request entry next hcall hentry hdec
  cases hdec with
  | @approve name _ =>
    intro hmarket version hash hver hhash
    left
    obtain ⟨stage, hcall'⟩ := hmoves.calls hcall
    cases hver
    cases hhash
    exact ⟨i, stage, entry, hcall', hmoves.found (hkept.found i _ hcall entry rfl), rfl, rfl⟩
  | setEnabled happr => apply hentry

/-! ### The manifest discovered last -/

/-- The entries describe what was discovered last. -/
def Described (s : State) : Prop :=
  ∀ name entry, Members.get s.plugins name = some entry → s.discovered name = some entry.description

/-- An entry is put back only if it still describes what was discovered last. -/
def Fresh (s : State) : Action → Prop
  | .decide i => ∀ request entry, s.calls[i]? = some ⟨request, .required (some entry)⟩ →
      s.discovered request.name = some entry.description
  | _ => True

theorem Decided.description {entry next : LocalPluginStateEntry} (h : Decided request entry next) :
  next.description = entry.description
  := by
  cases h <;> rfl

theorem Described.step (hmoves : Moves sha256 s a s') (h : Described s) (hfresh : Fresh s a) :
  Described s'
  := by
  cases hmoves with
  | load ok hready =>
    unfold State.load
    split
    · apply h
    · intro name entry hentry
      dsimp only at hentry ⊢
      rw [hentry, Option.map_some]
  | @discover i manifest source dir hcall hready =>
    intro name entry hentry
    have hget : Members.get (Members.put s.plugins manifest.name
        (discoveredEntry sha256 manifest source dir
          (Members.get s.plugins manifest.name))) name = some entry := hentry
    have hdiscovered : (s.initialized sha256 i (.discover manifest source dir)).discovered =
        Function.update s.discovered manifest.name (some (discoveredEntry sha256 manifest source
          dir (Members.get s.plugins manifest.name)).description) := rfl
    rw [Members.get_put] at hget
    rw [hdiscovered]
    split_ifs at hget with hname
    · rw [← Option.some.inj hget, hname, Function.update_self]
    · rw [Function.update_of_ne (Ne.symm hname)]
      apply h name entry hget
  | @remove i name' hcall hready =>
    intro name entry hentry
    have hget : Members.get (Members.erase s.plugins name') name = some entry := hentry
    rw [Members.get_erase] at hget
    split_ifs at hget
    apply h name entry hget
  | @put i request entry' next hcall hnext =>
    intro name entry hentry
    have hget : Members.get (Members.put s.plugins request.name next) name = some entry := hentry
    rw [Members.get_put] at hget
    split_ifs at hget with hname
    · rw [← Option.some.inj hget, hnext.description, ← hname]
      apply hfresh request entry' hcall
    · apply h name entry hget
  | _ => exact h

end AppRuntime.PluginState
