import VolundCode.Permission.Rules
import VolundCode.Lib.Run

/-!
# The permission manager

`PermissionManager` answers the permission requests of one session: from its rules, from the
decisions it remembers, from its mode, or by asking the user. Everything a request does
before it asks is one step; the prompts are asked one after the other.

A request made in ask mode that is allowed without asking is covered by a rule, reads inside
the working directory, belongs to the memory, or was allowed by the user in the session
(`justified_of_unleaked`), unless its key is that of a request the manager allowed by itself
for a reason that does not hold for it, or its server was allowed before the session was
cleared: the cache does not tell automatic decisions from answers (`not_justified`) and
`clearSession` does not clear the servers.
-/

namespace Permission

open Run Ecma List

/-! ### Decisions -/

/-- The mode of a session. -/
inductive PermissionSessionMode where
  | ask
  | auto
  | full
  deriving DecidableEq, Repr

inductive Kind where
  | allowOnce
  | allowSession
  | allowAllSession
  | allowProject
  | allowForever
  | deny
  | denyForever
  | allowMcpServer
  | allowBatchOnce
  | denyBatch
  deriving DecidableEq, Repr

inductive Reason where
  | timeout
  | fatigue
  deriving DecidableEq, Repr

structure PermissionDecision where
  kind : Kind
  reason : Option Reason
  deriving DecidableEq, Repr

/-- A decision without a reason. -/
def plain (kind : Kind) : PermissionDecision :=
  ⟨kind, none⟩

/-- A decision that is remembered for the session. -/
inductive Cached where
  | allowSession
  | allowProject
  | allowForever
  | denyForever
  deriving DecidableEq, Repr

def Cached.kind : Cached → Kind
  | .allowSession => .allowSession
  | .allowProject => .allowProject
  | .allowForever => .allowForever
  | .denyForever => .denyForever

/-- What is remembered of an answer, if anything is. -/
def Kind.cached : Kind → Option Cached
  | .allowSession => some .allowSession
  | .allowProject => some .allowProject
  | .allowForever => some .allowForever
  | .denyForever => some .denyForever
  | _ => none

/-- The decision lets the operation run: its name starts with `allow`. -/
def Kind.allows : Kind → Bool
  | .deny | .denyForever | .denyBatch => false
  | _ => true

/-! ### The manager -/

/-- The options that decide requests. -/
structure Options where
  dangerouslySkip : Bool
  mode : Option PermissionSessionMode

/-- How far the prompt of a request has come. -/
inductive Stage where
  | prompting
  | persisting (decision : PermissionDecision)

structure Manager where
  cache : String → Option Cached
  ephemeral : List Rule
  mcpServerAllows : List String
  queue : List PermissionRequest
  running : Option (PermissionRequest × Stage)
  hasPrompt : Bool
  initialMode : PermissionSessionMode
  mode : PermissionSessionMode

def Manager.initial (o : Options) : Manager where
  cache _ := none
  ephemeral := []
  mcpServerAllows := []
  queue := []
  running := none
  hasPrompt := false
  initialMode := o.mode.getD .ask
  mode := o.mode.getD .ask

/-- What the manager is told at a request: what its rules answer, what the real paths are and
whether the request is already aborted. -/
structure Moment where
  projectDeny : Bool
  globalDeny : Bool
  projectAllow : Bool
  globalAllow : Bool
  realpath : String → Option String
  aborted : Bool

/-- What a request comes to without asking: it is answered, fails, or waits for its prompt. -/
inductive Outcome where
  | decided (decision : PermissionDecision)
  | failed (error : VolundError)
  | enqueued

/-- The MCP server of a request, if it names one. -/
def mcpServer (request : PermissionRequest) : Option String :=
  match request.spec.custom.bind fun ms => Json.member ms "mcpServer" with
  | some (.str server) => some server
  | _ => none

/-- Some rule covers the request. -/
def someRuleMatches (p : Platform) (realpath : String → Option String)
    (request : PermissionRequest) : List Rule → Except VolundError Bool
  | [] => .ok false
  | rule :: rules =>
    match permissionRuleMatches p realpath rule request with
    | .error e => .error e
    | .ok true => .ok true
    | .ok false => someRuleMatches p realpath request rules

/-- The request belongs to the memory. -/
def isMemory (request : PermissionRequest) : Bool :=
  startsWith request.toolName "Memory."

/-- The request reads, and only inside the working directory. -/
def readsInCwd (p : Platform) (request : PermissionRequest) : Bool :=
  ["Read", "Grep", "Glob"].contains request.toolName && !request.spec.reads.isEmpty &&
    request.spec.reads.all fun path => inCwd p path request.session.cwd

/-- The request writes files, only inside the working directory, and asks for nothing else that
could be dangerous. -/
def writesInCwd (p : Platform) (request : PermissionRequest) : Bool :=
  request.spec.bash.isNone && request.spec.net.isNone && !request.spec.writes.isEmpty &&
    request.spec.writes.all fun path => inCwd p path request.session.cwd

/-- What the manager allows by itself. -/
def autoAllow (p : Platform) (mode : PermissionSessionMode) (request : PermissionRequest) :
    Option PermissionDecision :=
  if isMemory request then some (plain .allowSession)
  else if readsInCwd p request then some (plain .allowSession)
  else if mode = .auto then
    if writesInCwd p request then some (plain .allowSession) else none
  else none

/-- The manager with a decision remembered. -/
def Manager.remember (m : Manager) (key : String) (c : Cached) : Manager :=
  { m with cache := Function.update m.cache key (some c) }

/-- What a request does that no rule decides: the manager allows it by itself, or it is
asked. -/
def Manager.allowOrAsk (p : Platform) (o : Options) (m : Manager) (request : PermissionRequest)
    (v : Moment) (key : String) : Manager × Outcome :=
  match autoAllow p m.mode request with
  | some automatic =>
    (if automatic.kind = .allowSession then m.remember key .allowSession else m, .decided automatic)
  | none =>
    if o.dangerouslySkip then (m, .decided (plain .allowOnce))
    else if !m.hasPrompt then (m, .decided (plain .deny))
    else if v.aborted then (m, .decided (plain .deny))
    else ({ m with queue := m.queue ++ [request] }, .enqueued)

/-- What a request does about which nothing is remembered. -/
def Manager.requestUncached (p : Platform) (o : Options) (m : Manager)
    (request : PermissionRequest) (v : Moment) (key : String) : Manager × Outcome :=
  if (mcpServer request).any m.mcpServerAllows.contains then (m, .decided (plain .allowSession))
  else if m.mode = .full then (m, .decided (plain .allowSession))
  else
    match someRuleMatches p v.realpath request m.ephemeral with
    | .error e => (m, .failed e)
    | .ok true => (m, .decided (plain .allowSession))
    | .ok false =>
      if v.projectAllow then (m, .decided (plain .allowProject))
      else if v.globalAllow then (m, .decided (plain .allowForever))
      else m.allowOrAsk p o request v key

/-- What a request does before it asks. -/
def Manager.request (p : Platform) (o : Options) (m : Manager) (request : PermissionRequest)
    (v : Moment) : Manager × Outcome :=
  if v.projectDeny then (m, .decided (plain .deny))
  else if v.globalDeny then (m, .decided (plain .deny))
  else
    match keyOf p request with
    | .error e => (m, .failed e)
    | .ok key =>
      match m.cache key with
      | some cached => (m, .decided (plain cached.kind))
      | none => m.requestUncached p o request v key

/-- The manager with an answer in its cache, if the answer is one that is remembered. -/
def Manager.cacheAnswer (p : Platform) (m : Manager) (request : PermissionRequest)
    (decision : PermissionDecision) : Manager :=
  match decision.kind.cached, keyOf p request with
  | some c, .ok key => m.remember key c
  | _, _ => m

/-- What the answer to a prompt does before it is persisted, and the decision it comes to. -/
def Manager.record (p : Platform) (m : Manager) (request : PermissionRequest)
    (decision : PermissionDecision) : Manager × PermissionDecision :=
  let m := m.cacheAnswer p request decision
  let m := if decision.kind = .allowAllSession then { m with mode := .full } else m
  match decision.kind with
  | .allowMcpServer =>
    (match mcpServer request with
      | some server => { m with mcpServerAllows := server :: m.mcpServerAllows }
      | none => m, plain .allowSession)
  | .allowBatchOnce => (m, plain .allowOnce)
  | .denyBatch => (m, plain .deny)
  | _ => (m, decision)

/-- What can happen to a manager: a request is made; the next prompt starts, unless its request
was aborted while it waited; the user answers; the prompt fails; the answer has been
persisted; and the calls that change the session. -/
inductive Action where
  | request (request : PermissionRequest) (v : Moment)
  | start (aborted : Bool)
  | answer (decision : PermissionDecision)
  | promptRejects
  | persisted
  | setMode (mode : PermissionSessionMode)
  | setPromptHandler
  | grantEphemeral (rules : List Rule)
  | clearEphemeral
  | clearSession

/-- The step of a manager. -/
def Manager.step (p : Platform) (o : Options) (m : Manager) : Action → Option Manager
  | .request request v => some (m.request p o request v).1
  | .start aborted =>
    match m.running, m.queue with
    | none, request :: queue =>
      if aborted then some { m with queue := queue }
      else some { m with queue := queue, running := some (request, .prompting) }
    | _, _ => none
  | .answer decision =>
    match m.running with
    | some (request, .prompting) =>
      let (m, decision) := m.record p request decision
      some { m with running := some (request, .persisting decision) }
    | _ => none
  | .promptRejects =>
    match m.running with
    | some (_, .prompting) => some { m with running := none }
    | _ => none
  | .persisted =>
    match m.running with
    | some (_, .persisting _) => some { m with running := none }
    | _ => none
  | .setMode mode => some { m with mode := mode }
  | .setPromptHandler => some { m with hasPrompt := true }
  | .grantEphemeral rules => some { m with ephemeral := m.ephemeral ++ rules }
  | .clearEphemeral => some { m with ephemeral := [] }
  | .clearSession => some { m with cache := fun _ => none, mode := m.initialMode }

/-! ### What is observed of a session -/

/-- A manager and what has been observed of it: the prompts answered since the session was last
cleared, the requests since then whose automatic decision is in the cache, and the servers
that were allowed before the session was last cleared and not since. -/
structure Observed where
  manager : Manager
  answers : List (PermissionRequest × Kind)
  automatic : List PermissionRequest
  carried : List String

def Observed.initial (o : Options) : Observed where
  manager := Manager.initial o
  answers := []
  automatic := []
  carried := []

/-- What is observed of a step from `s` to the manager `m`. -/
def Observed.note (p : Platform) (s : Observed) (m : Manager) : Action → Observed
  | .request request _ =>
    match keyOf p request with
    | .ok key =>
      if (s.manager.cache key).isNone ∧ (m.cache key).isSome then
        { s with manager := m, automatic := request :: s.automatic }
      else { s with manager := m }
    | .error _ => { s with manager := m }
  | .answer decision =>
    match s.manager.running with
    | some (request, _) =>
      { s with
        manager := m
        answers := (request, decision.kind) :: s.answers
        automatic :=
          if decision.kind.cached.isSome then
            s.automatic.filter fun r => (keyOf p r).toOption ≠ (keyOf p request).toOption
          else s.automatic
        carried :=
          if decision.kind = .allowMcpServer then
            s.carried.filter fun server => mcpServer request ≠ some server
          else s.carried }
    | none => { s with manager := m }
  | .clearSession =>
    { manager := m, answers := [], automatic := [], carried := m.mcpServerAllows }
  | _ => { s with manager := m }

/-- The step of an observed manager. -/
def Observed.step (p : Platform) (o : Options) (s : Observed) (a : Action) : Option Observed :=
  (s.manager.step p o a).map fun m => s.note p m a

/-- An answer that allows for the session or longer. -/
def Kind.lasts (k : Kind) : Bool :=
  k ∈ [.allowSession, .allowProject, .allowForever]

/-- The user allowed, since the session was last cleared, what has the key of the request or all
of its server. -/
def AllowedByUser (p : Platform) (s : Observed) (request : PermissionRequest) : Prop :=
  ∃ a ∈ s.answers, (a.2.lasts ∧ ∃ key, keyOf p a.1 = .ok key ∧ keyOf p request = .ok key) ∨
      (a.2 = .allowMcpServer ∧ ∃ server, mcpServer a.1 = some server ∧
        mcpServer request = some server)

/-- There is a reason to allow the request in ask mode without asking. -/
def Justified (p : Platform) (s : Observed) (request : PermissionRequest) (v : Moment) : Prop :=
  v.projectAllow ∨ v.globalAllow ∨
    (∃ rule ∈ s.manager.ephemeral, permissionRuleMatches p v.realpath rule request = .ok true) ∨
    readsInCwd p request ∨ isMemory request ∨ AllowedByUser p s request

/-- A request whose automatic decision is in the cache is allowed for a reason that holds for
`request` too, which has the same key: it belongs to the memory, or reads the same paths in
the same working directory. -/
def Carries (p : Platform) (allowed request : PermissionRequest) : Prop :=
  isMemory allowed ∨ (readsInCwd p allowed ∧ allowed.spec.reads = request.spec.reads ∧
      allowed.session.cwd = request.session.cwd)

/-- The request has neither the key of a request that was allowed automatically for another
reason nor a server that was allowed only before the session was last cleared. -/
structure Unleaked (p : Platform) (s : Observed) (request : PermissionRequest) : Prop where
  automatic : ∀ r ∈ s.automatic, keyOf p r = keyOf p request → Carries p r request
  server : ∀ server ∈ s.carried, mcpServer request ≠ some server

/-! ### What a request and an answer do -/

/-- What a request may do to the manager: nothing is remembered, or the decision to allow it is
remembered under its key. -/
def Remembers (m m' : Manager) (key : String) : Prop :=
  m'.mcpServerAllows = m.mcpServerAllows ∧
    (m'.cache = m.cache ∨ m'.cache = Function.update m.cache key (some .allowSession))

theorem Remembers.nothing (m : Manager) (key : String) : Remembers m m key :=
  ⟨rfl, Or.inl rfl⟩

theorem allowOrAsk_remembers (p : Platform) (o : Options) (m : Manager) (r : PermissionRequest)
    (v : Moment) (key : String) :
  Remembers m (m.allowOrAsk p o r v key).1 key
  := by
  rw [Manager.allowOrAsk]
  split
  · split
    · exact ⟨rfl, Or.inr rfl⟩
    · apply Remembers.nothing
  split
  · apply Remembers.nothing
  split
  · apply Remembers.nothing
  · split
    · apply Remembers.nothing
    · exact ⟨rfl, Or.inl rfl⟩

theorem requestUncached_remembers (p : Platform) (o : Options) (m : Manager)
    (r : PermissionRequest) (v : Moment) (key : String) :
  Remembers m (m.requestUncached p o r v key).1 key
  := by
  rw [Manager.requestUncached]
  split
  · apply Remembers.nothing
  split
  · apply Remembers.nothing
  split
  · apply Remembers.nothing
  · apply Remembers.nothing
  split
  · apply Remembers.nothing
  · split
    · apply Remembers.nothing
    · apply allowOrAsk_remembers

/-- A request changes the cache only by the decision it stores under its key, which was
free. -/
theorem request_cache (p : Platform) (o : Options) (m : Manager) (r : PermissionRequest)
    (v : Moment) :
  (m.request p o r v).1.mcpServerAllows = m.mcpServerAllows ∧
    ((m.request p o r v).1.cache = m.cache ∨ ∃ key, keyOf p r = .ok key ∧ m.cache key = none ∧
        (m.request p o r v).1.cache = Function.update m.cache key (some .allowSession))
  := by
  obtain ⟨m', hm'⟩ : ∃ m', (m.request p o r v).1 = m' := ⟨_, rfl⟩
  rw [hm']
  rw [Manager.request] at hm'
  split at hm'
  · obtain rfl := hm'
    exact ⟨rfl, Or.inl rfl⟩
  split at hm'
  · obtain rfl := hm'
    exact ⟨rfl, Or.inl rfl⟩
  split at hm'
  · obtain rfl := hm'
    exact ⟨rfl, Or.inl rfl⟩
  rename_i key hkey
  split at hm'
  · obtain rfl := hm'
    exact ⟨rfl, Or.inl rfl⟩
  rename_i hfree
  obtain ⟨hsrvs, hcache⟩ := requestUncached_remembers p o m r v key
  rw [hm'] at hsrvs hcache
  use hsrvs
  rcases hcache with hcache | hcache
  · left
    apply hcache
  · right
    exact ⟨key, hkey, hfree, hcache⟩

section AskMode

variable {p : Platform} {o : Options} {m : Manager} {r : PermissionRequest} {v : Moment}
  {d : PermissionDecision}

/-- A request that is denied is not allowed. -/
theorem not_allows_of_deny (h : Outcome.decided (plain .deny) = .decided d) :
  d.kind.allows ≠ true
  := by
  rw [← Outcome.decided.inj h]
  nofun

/-- In ask mode the manager allows by itself what belongs to the memory or reads inside the
working directory. -/
theorem allowOrAsk_allowed {key : String} (hmode : m.mode = .ask)
    (hskip : o.dangerouslySkip = false) (hd : (m.allowOrAsk p o r v key).2 = .decided d)
    (hallow : d.kind.allows) :
  isMemory r ∨ readsInCwd p r
  := by
  rw [Manager.allowOrAsk, hskip] at hd
  split at hd
  · rename_i hauto
    simp only [autoAllow, hmode, reduceCtorEq, if_false] at hauto
    split at hauto
    · rename_i hmem
      left
      apply hmem
    split at hauto
    · rename_i hreads
      right
      apply hreads
    · cases hauto
  split at hd
  · next h => cases h
  split at hd
  · apply absurd hallow (not_allows_of_deny hd)
  · split at hd
    · apply absurd hallow (not_allows_of_deny hd)
    · cases hd

/-- In ask mode, what is allowed without asking and without a remembered decision is of an
allowed server, covered by a rule, or allowed for what it is. -/
theorem requestUncached_allowed {key : String} (hmode : m.mode = .ask)
    (hskip : o.dangerouslySkip = false) (hd : (m.requestUncached p o r v key).2 = .decided d)
    (hallow : d.kind.allows) :
  (∃ server ∈ m.mcpServerAllows, mcpServer r = some server) ∨
    someRuleMatches p v.realpath r m.ephemeral = .ok true ∨ v.projectAllow ∨
    v.globalAllow ∨ isMemory r ∨ readsInCwd p r
  := by
  rw [Manager.requestUncached] at hd
  split at hd
  · rename_i hserver
    left
    obtain ⟨server, hr, hmem⟩ := (Option.any_eq_true _ _).mp hserver
    exact ⟨server, contains_iff_mem.mp hmem, hr⟩
  split at hd
  · rename_i hfull
    rw [hmode] at hfull
    cases hfull
  split at hd
  · cases hd
  · rename_i hmatch
    right; left
    apply hmatch
  split at hd
  · rename_i hproj
    right; right; left
    apply hproj
  split at hd
  · rename_i hglobal
    right; right; right; left
    apply hglobal
  · right; right; right; right
    apply allowOrAsk_allowed hmode hskip hd hallow

/-- In ask mode, what is allowed without asking is in the cache, of an allowed server, covered
by a rule, or allowed for what it is. -/
theorem request_allowed (hmode : m.mode = .ask) (hskip : o.dangerouslySkip = false)
    (hd : (m.request p o r v).2 = .decided d) (hallow : d.kind.allows) :
  (∃ key c, keyOf p r = .ok key ∧ m.cache key = some c ∧ c.kind.allows) ∨
    (∃ server ∈ m.mcpServerAllows, mcpServer r = some server) ∨
    someRuleMatches p v.realpath r m.ephemeral = .ok true ∨ v.projectAllow ∨
    v.globalAllow ∨ isMemory r ∨ readsInCwd p r
  := by
  rw [Manager.request] at hd
  split at hd
  · apply absurd hallow (not_allows_of_deny hd)
  split at hd
  · apply absurd hallow (not_allows_of_deny hd)
  split at hd
  · cases hd
  rename_i key hkey
  split at hd
  · rename_i c hc
    left
    use key, c, hkey, hc
    rw [← Outcome.decided.inj hd] at hallow
    apply hallow
  · right
    apply requestUncached_allowed hmode hskip hd hallow

end AskMode

variable {r : PermissionRequest} {p : Platform}

/-- A rule that covers the request is among those asked. -/
theorem exists_of_someRuleMatches {realpath : String → Option String} {rules : List Rule}
    (h : someRuleMatches p realpath r rules = .ok true) :
  ∃ rule ∈ rules, permissionRuleMatches p realpath rule r = .ok true
  := by
  induction rules with
  | nil => cases h
  | cons rule rules ih =>
  rw [someRuleMatches] at h
  split at h
  · cases h
  · next hrule => exact ⟨rule, mem_cons_self, hrule⟩
  · obtain ⟨rule, hmem, hrule⟩ := ih h
    exact ⟨rule, mem_cons_of_mem _ hmem, hrule⟩

/-- What the cache holds after an answer is the answer, or was there before under another key
than that of an answer that is remembered. -/
theorem cacheAnswer_cache {m : Manager} {d : PermissionDecision} {key : String} {c : Cached}
    (h : (m.cacheAnswer p r d).cache key = some c) :
  (keyOf p r = .ok key ∧ d.kind.cached = some c) ∨
    (m.cache key = some c ∧ (d.kind.cached.isSome → keyOf p r ≠ .ok key))
  := by
  rw [Manager.cacheAnswer] at h
  split at h
  · rename_i c' key' hc hkey
    by_cases heq : key = key'
    · left
      subst heq
      simp only [Manager.remember, Function.update_self] at h
      exact ⟨hkey, hc.trans h⟩
    right
    simp only [Manager.remember, Function.update_of_ne heq] at h
    use h
    intro _ hkey'
    rw [hkey] at hkey'
    apply heq (Except.ok.inj hkey').symm
  rename_i hnone
  right
  use h
  intro hsome hkey
  obtain ⟨c', hc'⟩ := Option.isSome_iff_exists.mp hsome
  apply hnone c' key hc' hkey

/-- An answer changes the cache as `cacheAnswer` does, and the servers by the server it
allows. -/
theorem record_spec (p : Platform) (m : Manager) (r : PermissionRequest) (d : PermissionDecision) :
  (m.record p r d).1.cache = (m.cacheAnswer p r d).cache ∧
    ∀ server ∈ (m.record p r d).1.mcpServerAllows,
      (d.kind = .allowMcpServer ∧ mcpServer r = some server) ∨ server ∈ m.mcpServerAllows
  := by
  have hsrvs : (m.cacheAnswer p r d).mcpServerAllows = m.mcpServerAllows := by
    rw [Manager.cacheAnswer]
    split
    · rfl
    · rfl
  rw [Manager.record]
  cases hkind : d.kind with
  | allowMcpServer =>
    cases hserver : mcpServer r with
    | none =>
      use rfl
      intro server hmem
      right
      simpa [hsrvs] using hmem
    | some server =>
    use rfl
    intro server' hmem
    rcases mem_cons.mp hmem with rfl | hmem
    · left
      exact ⟨rfl, rfl⟩
    · right
      simpa [hsrvs] using hmem
  | _ =>
  constructor
  · simp
  · intro server hmem
    right
    simpa [hsrvs] using hmem

/-! ### What is remembered -/

/-- What the manager remembers has a cause that is observed: an allowed key is that of a request
in the cache that was allowed automatically, or of an answer; an allowed server was allowed
by an answer since the session was last cleared, or before. -/
structure Invariant (p : Platform) (s : Observed) : Prop where
  cache : ∀ key c, s.manager.cache key = some c → c.kind.allows →
    (∃ r ∈ s.automatic, keyOf p r = .ok key) ∨ ∃ a ∈ s.answers, a.2.lasts ∧ keyOf p a.1 = .ok key
  servers : ∀ server ∈ s.manager.mcpServerAllows, server ∈ s.carried ∨
    ∃ a ∈ s.answers, a.2 = .allowMcpServer ∧ mcpServer a.1 = some server

theorem Invariant.initial (p : Platform) (o : Options) : Invariant p (Observed.initial o) where
  cache _ _ h := by cases h
  servers _ h := by cases h

/-- An answer that is remembered and allows lasts for the session. -/
theorem lasts_of_cached {k : Kind} {c : Cached} (hc : k.cached = some c) (hallow : c.kind.allows) :
  k.lasts
  := by
  cases k <;> cases hc <;> first | rfl | cases hallow

variable {s : Observed}

/-- A request keeps the causes of what is remembered. -/
theorem Invariant.request {o : Options} {v : Moment} (hs : Invariant p s) :
  Invariant p (s.note p (s.manager.request p o r v).1 (.request r v))
  := by
  obtain ⟨hsrvs, hcache⟩ := request_cache p o s.manager r v
  rcases hcache with hcache | ⟨key, hkey, hfree, hcache⟩
  · have hnote : s.note p (s.manager.request p o r v).1 (.request r v) =
        { s with manager := (s.manager.request p o r v).1 } := by
      rw [Observed.note]
      split
      · rename_i key' _
        rw [if_neg]
        rintro ⟨hnone, hsome⟩
        rw [hcache] at hsome
        cases h : s.manager.cache key' <;> simp_all
      · rfl
    rw [hnote]
    constructor
    · intro key c hc
      rw [hcache] at hc
      apply hs.cache key c hc
    · intro server hmem
      rw [hsrvs] at hmem
      apply hs.servers server hmem
  have hnote : s.note p (s.manager.request p o r v).1 (.request r v) =
      { s with manager := (s.manager.request p o r v).1, automatic := r :: s.automatic } := by
    simp [Observed.note, hkey, hfree, hcache]
  rw [hnote]
  constructor
  · intro key' c hc hallow
    by_cases heq : key' = key
    · left
      use r, mem_cons_self
      rw [hkey, heq]
    rw [hcache, Function.update_of_ne heq] at hc
    rcases hs.cache key' c hc hallow with ⟨r', hr', hkey'⟩ | h
    · left
      exact ⟨r', mem_cons_of_mem _ hr', hkey'⟩
    · right
      apply h
  · intro server hmem
    rw [hsrvs] at hmem
    apply hs.servers server hmem

/-- An answer keeps the causes of what is remembered. -/
theorem Invariant.answer {stage : Stage} {d : PermissionDecision} {m : Manager} (hs : Invariant p s)
    (hruns : s.manager.running = some (r, stage))
    (hcache : m.cache = (s.manager.record p r d).1.cache)
    (hallow : m.mcpServerAllows = (s.manager.record p r d).1.mcpServerAllows) :
  Invariant p (s.note p m (.answer d))
  := by
  obtain ⟨hrec, hsrvs⟩ := record_spec p s.manager r d
  simp only [Observed.note, hruns]
  constructor
  · intro key c hc hkind
    simp only [hcache, hrec] at hc
    rcases cacheAnswer_cache hc with ⟨hkey, hd⟩ | ⟨hold, hother⟩
    · right
      exact ⟨(r, d.kind), mem_cons_self, lasts_of_cached hd hkind, hkey⟩
    rcases hs.cache key c hold hkind with ⟨r', hr', hkey'⟩ | ⟨a, ha, hlasts, hkey'⟩
    · left
      refine ⟨r', ?_, hkey'⟩
      split
      · rename_i hsome
        apply mem_filter.mpr
        use hr'
        have hne := hother hsome
        simp only [hkey', Except.toOption, ne_eq, decide_eq_true_eq]
        intro heq
        apply hne
        cases hr : keyOf p r with
        | error e => simp [hr] at heq
        | ok k =>
          simp only [hr, Option.some.injEq] at heq
          rw [heq]
      · apply hr'
    · right
      exact ⟨a, mem_cons_of_mem _ ha, hlasts, hkey'⟩
  intro server hmem
  simp only [hallow] at hmem
  rcases hsrvs server hmem with ⟨hkind, hserver⟩ | hold
  · right
    exact ⟨(r, d.kind), mem_cons_self, hkind, hserver⟩
  rcases hs.servers server hold with hcarried | ⟨a, ha, hkind, hserver⟩
  · by_cases hd : d.kind = .allowMcpServer ∧ mcpServer r = some server
    · right
      exact ⟨(r, d.kind), mem_cons_self, hd.1, hd.2⟩
    left
    simp only
    split
    · rename_i hkind
      apply mem_filter.mpr
      use hcarried
      simp only [ne_eq, decide_eq_true_eq]
      intro hserver
      apply hd ⟨hkind, hserver⟩
    · apply hcarried
  · right
    exact ⟨a, mem_cons_of_mem _ ha, hkind, hserver⟩

/-- A step that changes neither the cache nor the servers nor what is observed keeps the causes
of what is remembered. -/
theorem Invariant.frame {m : Manager} {a : Action}
    (hs : Invariant p s) (hnote : s.note p m a = { s with manager := m })
    (hcache : m.cache = s.manager.cache) (hsrvs : m.mcpServerAllows = s.manager.mcpServerAllows) :
  Invariant p (s.note p m a)
  := by
  rw [hnote]
  constructor
  · intro key c hc
    rw [hcache] at hc
    apply hs.cache key c hc
  · intro server hmem
    rw [hsrvs] at hmem
    apply hs.servers server hmem

/-- Every step keeps the causes of what is remembered. -/
theorem Invariant.step {o : Options} {t : Observed} {a : Action}
    (hs : Invariant p s) (h : s.step p o a = some t) :
  Invariant p t
  := by
  rw [Observed.step, Option.map_eq_some_iff] at h
  obtain ⟨m, hm, rfl⟩ := h
  cases a with
  | request r v =>
    cases hm
    apply hs.request
  | start aborted =>
    simp only [Manager.step] at hm
    split at hm
    · split at hm
      all_goals
        cases hm
        exact hs.frame rfl rfl rfl
    · cases hm
  | answer d =>
    simp only [Manager.step] at hm
    split at hm
    · rename_i r hruns
      cases hm
      exact hs.answer hruns rfl rfl
    · cases hm
  | promptRejects | persisted =>
    simp only [Manager.step] at hm
    split at hm
    · cases hm
      exact hs.frame rfl rfl rfl
    · cases hm
  | clearSession =>
    cases hm
    constructor
    · nofun
    · intro server hmem
      left
      apply hmem
  | setMode | setPromptHandler | grantEphemeral | clearEphemeral =>
    cases hm
    exact hs.frame rfl rfl rfl

/-- What the manager remembers after a run has a cause that is observed. -/
theorem invariant_of_run {o : Options} {as : List Action}
    (hrun : run (Observed.step p o) (Observed.initial o) as = some s) :
  Invariant p s
  := by
  apply run_invariant _ (Invariant.initial p o) hrun
  intro s a t hs h
  apply hs.step h

/-- A request with the key of one that was allowed automatically for a reason that holds for
both is allowed for that reason. -/
theorem Carries.justified {allowed : PermissionRequest} {key : String}
    (h : Carries p allowed r) (hallowed : keyOf p allowed = .ok key) (hr : keyOf p r = .ok key) :
  readsInCwd p r ∨ isMemory r
  := by
  have htool := toolName_of_keyOf hallowed hr
  rcases h with hmem | ⟨hreads, hpaths, hcwd⟩
  · right
    rw [isMemory, htool] at hmem
    apply hmem
  · left
    rw [readsInCwd, htool, hpaths, hcwd] at hreads
    apply hreads

/-! ### Prompts in ask mode -/

/-- In every run, a request made in ask mode that is allowed without asking has a reason,
provided that its key is not that of a request allowed automatically for another reason, and
that its server was not allowed only before the session was last cleared. -/
theorem justified_of_unleaked
    {p : Platform} {o : Options} {as : List Action} {s : Observed} {r : PermissionRequest}
    {v : Moment} {d : PermissionDecision}
    (hrun : run (Observed.step p o) (Observed.initial o) as = some s)
    (hunleaked : Unleaked p s r) (hmode : s.manager.mode = .ask) (hskip : o.dangerouslySkip = false)
    (hd : (s.manager.request p o r v).2 = .decided d) (hallow : d.kind.allows) :
  Justified p s r v
  := by
  have hs := invariant_of_run hrun
  rcases request_allowed hmode hskip hd hallow with ⟨key, c, hkey, hc, hkind⟩ |
    ⟨server, hmem, hserver⟩ | hrule | hproj | hglobal | hmemory | hreads
  · rcases hs.cache key c hc hkind with ⟨r', hr', hkey'⟩ | ⟨a, ha, hlasts, hkey'⟩
    · have hcarries := hunleaked.automatic r' hr' (hkey'.trans hkey.symm)
      rcases hcarries.justified hkey' hkey with h | h
      · exact Or.inr (Or.inr (Or.inr (Or.inl h)))
      · exact Or.inr (Or.inr (Or.inr (Or.inr (Or.inl h))))
    · right; right; right; right; right
      exact ⟨a, ha, Or.inl ⟨hlasts, key, hkey', hkey⟩⟩
  · rcases hs.servers server hmem with hcarried | ⟨a, ha, hkind, hserver'⟩
    · apply absurd hserver (hunleaked.server server hcarried)
    · right; right; right; right; right
      exact ⟨a, ha, Or.inr ⟨hkind, server, hserver', hserver⟩⟩
  · right; right; left
    apply exists_of_someRuleMatches hrule
  · left
    apply hproj
  · right; left
    apply hglobal
  · right; right; right; right; left
    apply hmemory
  · right; right; right; left
    apply hreads

/-- A platform on which paths are joined with slashes and a glob matches itself. -/
def samplePlatform : Platform where
  isAbsolute path := startsWith path "/"
  resolve
    | [a] => a
    | [a, b] => a ++ "/" ++ b
    | _ => "/"
  relative a b :=
    if a = b then "" else if startsWith b (a ++ "/") then slice b (a.length + 1) else "../" ++ b
  join a b := a ++ "/" ++ b
  dirname _ := "/"
  basename path := path
  homedir := "/home"
  win32 := false
  parseUrl _ := none
  picomatch pattern _ path := pattern = path

/-- A manager in ask mode. -/
def sampleOptions : Options where
  dangerouslySkip := false
  mode := some .ask

/-- A request to write a file in the working directory. -/
def sampleWrite : PermissionRequest where
  toolName := "Write"
  spec := { PermissionSpec.empty with fs := some ⟨none, some ["notes.md"]⟩ }
  session := ⟨"s", "/work"⟩

/-- No rule says anything. -/
def sampleMoment : Moment where
  projectDeny := false
  globalDeny := false
  projectAllow := false
  globalAllow := false
  realpath := some
  aborted := false

/-- The user allows a write for the session. -/
def askedOnce : List Action :=
  [.setPromptHandler, .request sampleWrite sampleMoment, .start false,
    .answer (plain .allowSession), .persisted]

theorem justified_of_unleaked_askedOnce :
  ∃ s, run (Observed.step samplePlatform sampleOptions) (Observed.initial sampleOptions)
      askedOnce = some s ∧
    Justified samplePlatform s sampleWrite sampleMoment
  := by
  have hrun : run (Observed.step samplePlatform sampleOptions) (Observed.initial sampleOptions)
      askedOnce = some _ := rfl
  refine ⟨_, hrun, justified_of_unleaked (d := plain .allowSession) hrun ?_ rfl rfl rfl rfl⟩
  constructor
  · intro r hr
    have hnone : r ∈ [] := hr
    cases hnone
  · nofun

/-- A write is allowed by the manager itself in auto mode, and then the mode is changed. -/
def autoThenAsk : List Action :=
  [.setMode .auto, .request sampleWrite sampleMoment, .setMode .ask]

/-- Requests made in ask mode are allowed without a reason: what the manager allowed by itself
in auto mode stays allowed in ask mode. -/
theorem not_justified :
  ¬ ∀ p o as s r v d, run (Observed.step p o) (Observed.initial o) as = some s →
    s.manager.mode = .ask → o.dangerouslySkip = false →
    (s.manager.request p o r v).2 = .decided d → d.kind.allows → Justified p s r v
  := by
  intro h
  have hjustified := h samplePlatform sampleOptions autoThenAsk _ sampleWrite sampleMoment
    (plain .allowSession) rfl rfl rfl rfl rfl
  rcases hjustified with hrule | hrule | ⟨rule, hmem, -⟩ | hreads | hmemory | ⟨a, hmem, -⟩
  · cases hrule
  · cases hrule
  · cases hmem
  · cases hreads
  · cases hmemory
  · cases hmem

/-! ### The queue of prompts -/

/-- The requests whose prompts are not over: the one that is asked, and those that wait. -/
def Manager.waiting (m : Manager) : List PermissionRequest :=
  m.running.toList.map Prod.fst ++ m.queue

/-- The request that a step puts in the queue. -/
def Manager.asks (p : Platform) (o : Options) (m : Manager) : Action → List PermissionRequest
  | .request request v =>
    match (m.request p o request v).2 with
    | .enqueued => [request]
    | _ => []
  | _ => []

/-- The request whose prompt a step ends, or leaves out. -/
def Manager.ends (m : Manager) : Action → List PermissionRequest
  | .start true => m.queue.take 1
  | .promptRejects | .persisted => m.running.toList.map Prod.fst
  | _ => []

/-- A manager, the requests that were put in its queue, and those whose prompts are over, each in
the order in which that happened. -/
structure Served where
  manager : Manager
  asked : List PermissionRequest
  ended : List PermissionRequest

def Served.initial (o : Options) : Served where
  manager := .initial o
  asked := []
  ended := []

def Served.step (p : Platform) (o : Options) (s : Served) (a : Action) : Option Served :=
  (s.manager.step p o a).map fun m =>
    { manager := m
      asked := s.asked ++ s.manager.asks p o a
      ended := s.ended ++ s.manager.ends a }

/-- A request that waits for its prompt is put at the end of the queue, and no other is. -/
def Queues (m : Manager) (r : PermissionRequest) (x : Manager × Outcome) : Prop :=
  x.1.running = m.running ∧
    x.1.queue = m.queue ++ match x.2 with | .enqueued => [r] | _ => []

theorem queues_request (p : Platform) (o : Options) (m : Manager) (r : PermissionRequest)
    (v : Moment) :
  Queues m r (m.request p o r v)
  := by
  have hdecided : ∀ d, Queues m r (m, .decided d) := fun _ => ⟨rfl, (append_nil _).symm⟩
  have hfailed : ∀ e, Queues m r (m, .failed e) := fun _ => ⟨rfl, (append_nil _).symm⟩
  have hasks : ∀ key, Queues m r (m.allowOrAsk p o r v key) := by
    intro key
    rw [Manager.allowOrAsk]
    split
    · split
      all_goals exact ⟨rfl, (append_nil _).symm⟩
    · split_ifs
      · apply hdecided
      · apply hdecided
      · apply hdecided
      · exact ⟨rfl, rfl⟩
  have huncached : ∀ key, Queues m r (m.requestUncached p o r v key) := by
    intro key
    rw [Manager.requestUncached]
    split
    · apply hdecided
    split
    · apply hdecided
    split
    · apply hfailed
    · apply hdecided
    split_ifs
    · apply hdecided
    · apply hdecided
    · apply hasks
  rw [Manager.request]
  split
  · apply hdecided
  split
  · apply hdecided
  split
  · apply hfailed
  split
  · apply hdecided
  · apply huncached

/-- An answer leaves the queue as it is. -/
theorem queue_record (p : Platform) (m : Manager) (r : PermissionRequest)
    (d : PermissionDecision) :
  (m.record p r d).1.queue = m.queue
  := by
  have hcache : (m.cacheAnswer p r d).queue = m.queue := by
    rw [Manager.cacheAnswer]
    split
    · rfl
    · rfl
  rw [Manager.record]
  cases d.kind with
  | allowMcpServer =>
    cases mcpServer r with
    | none | some server => exact hcache
  | _ => exact hcache

end Permission
