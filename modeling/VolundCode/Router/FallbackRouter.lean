import VolundCode.Lib.Run
import VolundCode.Permission.Rules

/-!
# The fallback router

`FallbackRouter` chooses for each attempt one of a chain of providers, the available one of the
highest priority. A provider that failed cools down, and when its cooldown has elapsed a single
attempt, the probe, may find out whether it has recovered: while the probe is in flight the
provider is half-open, and no other attempt is sent to it.

A provider whose probe ends in a success, or in an error that the router takes up, is closed
again. An error that makes the router give up at once, and a probe that is never reported, leave
it half-open for good (`not_unstuck`). In the runs without these, and without errors of other
attempts at a provider that is half-open, no provider ever stays half-open
(`unstuck_of_closing`).
-/

namespace Router

open List Bool

open Permission (VolundError)
open Run

/-! ### Attempts and their errors -/

inductive ProviderErrorCategory where
  | network
  | auth
  | rateLimit
  | quota
  | invalidRequest
  | contentFilter
  | modelNotFound
  | server
  | contextLength
  | streamTruncated
  | protocol
  | permission
  | sandbox
  | timeout
  | cancelled
  | resourceExhausted
  | unknown
  deriving DecidableEq, Repr

structure ProviderError where
  message : String
  provider : String
  model : Option String
  status : Option ℕ
  category : ProviderErrorCategory
  retryable : Bool
  retryAfterMs : Option ℕ
  cause : Option String
  deriving DecidableEq, Repr

structure RouterSessionSnapshot where
  id : String
  cumulativeCostUSD : ℚ
  lastProvider : Option String
  stickyProvider : Option String
  deriving DecidableEq, Repr

structure Budget where
  costUSDMax : Option ℚ
  timeMsMax : Option ℕ
  deriving DecidableEq, Repr

/-- The context of a call. `aborted` stands for `signal?.aborted === true`. -/
structure RouterContext where
  session : RouterSessionSnapshot
  turnId : String
  attemptCount : ℕ
  budget : Option Budget
  elapsedTimeMs : Option ℕ
  aborted : Bool
  deriving DecidableEq, Repr

/-- A decision. A provider is known by its name, and its metadata is left out. -/
structure RouterDecision where
  provider : String
  model : String
  reason : String
  deriving DecidableEq, Repr

/-! ### The router -/

structure FallbackRoute where
  provider : String
  model : String
  priority : ℤ
  deriving DecidableEq, Repr

structure ProviderHealth where
  retryCount : ℕ
  cooldownUntil : ℕ
  halfOpen : Bool
  failures : List ProviderError
  deriving DecidableEq, Repr

/-- The health of the providers. -/
abbrev Health := String → ProviderHealth

def Health.initial : Health := fun _ => ⟨0, 0, false, []⟩

/-- The categories after which nothing is tried again. -/
def noRetry : List ProviderErrorCategory :=
  [.auth, .invalidRequest, .contextLength, .protocol, .permission, .sandbox, .cancelled]

/-- The categories after which another provider is tried at once. -/
def fallbackImmediately : List ProviderErrorCategory :=
  [.rateLimit, .quota, .contentFilter, .modelNotFound]

structure FallbackRouterOptions where
  cooldownMs : Option ℕ
  maxAttempts : Option ℕ
  maxRetriesPerProvider : Option ℕ
  routePolicy : Option (FallbackRoute → RouterContext → Bool)

/-- What the constructor keeps of its arguments: the routes by falling priority, of different
providers, and the options with their defaults. -/
structure FallbackRouter where
  chain : List FallbackRoute
  cooldownMs : ℕ
  maxAttempts : ℕ
  maxRetries : ℕ
  routePolicy : FallbackRoute → RouterContext → Bool
  nonempty : chain ≠ []
  distinct : (chain.map FallbackRoute.provider).Nodup

namespace FallbackRouter

/-- The chain as the router tries it. -/
def sortChain (chain : List FallbackRoute) : List FallbackRoute :=
  chain.insertionSort fun a b => b.priority ≤ a.priority

/-- The first provider that an earlier route of the chain has. -/
def duplicate : List FallbackRoute → List String → Option String
  | [], _ => none
  | route :: rest, names =>
    if names.contains route.provider then some route.provider
    else duplicate rest (names ++ [route.provider])

/-- A chain in which no provider comes again has different providers. -/
theorem nodup_of_duplicate {chain : List FallbackRoute} {names : List String}
    (hnames : names.Nodup) (h : duplicate chain names = none) :
  (names ++ chain.map FallbackRoute.provider).Nodup
  := by
  induction chain generalizing names with
  | nil => simpa using hnames
  | cons route rest ih =>
  rw [duplicate] at h
  split_ifs at h with hmem
  have hnew : (names ++ [route.provider]).Nodup := by
    rw [nodup_append]
    use hnames, nodup_singleton _
    rintro a ha b hb rfl
    obtain rfl := mem_singleton.mp hb
    apply hmem
    rw [contains_eq_mem]
    exact decide_eq_true ha
  have hrest := ih hnew h
  rw [append_assoc] at hrest
  apply hrest

/-- The constructor. -/
def create (chain : List FallbackRoute) (options : FallbackRouterOptions) :
    Except VolundError FallbackRouter :=
  if hempty : chain = [] then .error ⟨"fallback_chain_empty", "fallback_chain_empty"⟩
  else
    match h : duplicate chain [] with
    | some name => .error ⟨"fallback_provider_duplicate", name⟩
    | none => .ok {
        chain := sortChain chain
        cooldownMs := options.cooldownMs.getD 60000
        maxAttempts := options.maxAttempts.getD 6
        maxRetries := options.maxRetriesPerProvider.getD 2
        routePolicy := options.routePolicy.getD fun _ _ => true
        nonempty := by
          intro hnil
          apply hempty
          have hperm := List.perm_insertionSort (fun a b : FallbackRoute => b.priority ≤ a.priority)
            chain
          rw [show chain.insertionSort _ = [] from hnil] at hperm
          exact hperm.symm.eq_nil
        distinct := by
          have hperm := List.perm_insertionSort (fun a b : FallbackRoute => b.priority ≤ a.priority)
            chain
          rw [sortChain, (hperm.map _).nodup_iff]
          apply nodup_of_duplicate List.nodup_nil h }

variable (r : FallbackRouter)

/-- The route of a provider. -/
def route (name : String) : Option FallbackRoute :=
  r.chain.find? fun entry => entry.provider = name

/-- Nothing more may be tried. -/
def exhausted (ctx : RouterContext) : Bool :=
  ctx.aborted || decide (r.maxAttempts ≤ ctx.attemptCount) ||
    (ctx.budget.bind Budget.costUSDMax).any (fun max => decide
      (max ≤ ctx.session.cumulativeCostUSD)) ||
    (ctx.budget.bind Budget.timeMsMax).any fun max => decide (max ≤ ctx.elapsedTimeMs.getD 0)

/-- The first of these routes that may be tried, with its provider half-open if it has been
cooling down. -/
def availableIn (ctx : RouterContext) (exclude : Option String) (now : ℕ) (h : Health) :
    List FallbackRoute → Option (FallbackRoute × Health)
  | [] => none
  | route :: rest =>
    if some route.provider = exclude then availableIn ctx exclude now h rest
    else if !r.routePolicy route ctx then availableIn ctx exclude now h rest
    else if (h route.provider).cooldownUntil = 0 then some (route, h)
    else if (h route.provider).cooldownUntil ≤ now ∧ !(h route.provider).halfOpen then
      some (route, Function.update h route.provider { h route.provider with halfOpen := true })
    else availableIn ctx exclude now h rest

def availableRoute (ctx : RouterContext) (exclude : Option String) (now : ℕ) (h : Health) :
    Option (FallbackRoute × Health) :=
  r.availableIn ctx exclude now h r.chain

def decision (route : FallbackRoute) (reason : String) (model : Option String) : RouterDecision where
  provider := route.provider
  model := model.getD route.model
  reason := reason

/-- The name of a provider and of a model that an explicit model names, if it has a slash. -/
def splitExplicit (explicit : String) : Option (String × String) :=
  if explicit.toList.contains '/' then
    some (String.ofList (explicit.toList.takeWhile (· ≠ '/')),
      String.ofList ((explicit.toList.dropWhile (· ≠ '/')).drop 1))
  else none

/-- The provider to which the session sticks. An empty name is none. -/
def stickyOf (ctx : RouterContext) : Option String :=
  ctx.session.stickyProvider.filter (· ≠ "")

def pick (ctx : RouterContext) (explicitModel : Option String) (now : ℕ) (h : Health) :
    Except VolundError (RouterDecision × Health) :=
  match stickyOf ctx with
  | some sticky =>
    match r.route sticky with
    | none => .error ⟨"sticky_provider_not_in_fallback_chain", sticky⟩
    | some route =>
      if !r.routePolicy route ctx then
        .error ⟨"router_route_not_eligible", "router_route_not_eligible"⟩
      else .ok (decision route "sticky-provider" none, h)
  | none =>
    if r.exhausted ctx then .error ⟨"router_budget_exhausted", "router_budget_exhausted"⟩
    else
      match explicitModel.bind splitExplicit with
      | some (providerName, model) =>
        match r.route providerName with
        | none => .error ⟨"provider_not_in_fallback_chain", providerName⟩
        | some route => .ok (decision route "explicit-provider" (some model), h)
      | none =>
        match r.availableRoute ctx none now h with
        | none => .error ⟨"all_providers_cooling_down", "all_providers_cooling_down"⟩
        | some (route, h') => .ok (decision route "fallback-primary" explicitModel, h')

/-- What the router does after it has waited for a retry. -/
inductive Retry where
  | sticky
  | plain
  | rateLimit
  deriving DecidableEq, Repr

/-- What an error leads to: nothing more, another attempt, or a wait for a retry. -/
inductive Verdict where
  | giveUp
  | decided (decision : RouterDecision)
  | waiting (retry : Retry)

/-- The error is copied without its cause. -/
def safeError (error : ProviderError) : ProviderError :=
  { error with cause := none }

/-- The router takes up the error, and does not give up at once. -/
def takesUp (error : ProviderError) (ctx : RouterContext) : Bool :=
  (r.route error.provider).isSome && !r.exhausted ctx && !noRetry.contains error.category &&
    (error.retryable || fallbackImmediately.contains error.category)

/-- The provider of an error that is taken up: the failure is noted and the provider closed. -/
def noteFailure (error : ProviderError) (h : Health) : Health :=
  Function.update h error.provider { h error.provider with
    failures := (h error.provider).failures ++ [safeError error]
    halfOpen := false }

def countRetry (provider : String) (h : Health) : Health :=
  Function.update h provider { h provider with retryCount := (h provider).retryCount + 1 }

/-- The provider of the error cools down, and another provider is tried, or after a rate limit the
same one again. -/
def coolDown (error : ProviderError) (ctx : RouterContext) (now later : ℕ) (h : Health) :
    Health × Verdict :=
  let cooled : Health := Function.update h error.provider { h error.provider with
    cooldownUntil := now + max r.cooldownMs (error.retryAfterMs.getD 0) }
  match r.availableRoute ctx (some error.provider) later cooled with
  | some (fallback, h') =>
    (Function.update h' error.provider { h' error.provider with retryCount := 0 },
      .decided (decision fallback "fallback" none))
  | none =>
    if error.category = .rateLimit ∧ (cooled error.provider).retryCount < r.maxRetries then
      (countRetry error.provider cooled, .waiting .rateLimit)
    else (cooled, .giveUp)

/-- `onError`, up to its wait. The clock is read at `now` and again at `later`. -/
def onError (error : ProviderError) (ctx : RouterContext) (now later : ℕ) (h : Health) :
    Health × Verdict :=
  if !r.takesUp error ctx then (h, .giveUp)
  else
    let noted := noteFailure error h
    match stickyOf ctx with
    | some sticky =>
      if sticky ≠ error.provider ∨ r.maxRetries ≤ (noted error.provider).retryCount then
        (noted, .giveUp)
      else (countRetry error.provider noted, .waiting .sticky)
    | none =>
      if !fallbackImmediately.contains error.category ∧
          (noted error.provider).retryCount < r.maxRetries then
        (countRetry error.provider noted, .waiting .plain)
      else r.coolDown error ctx now later noted

def Retry.reason : Retry → String
  | .sticky => "sticky-retry"
  | .plain => "retry"
  | .rateLimit => "retry"

/-- After the wait for a rate limit the provider no longer cools down. -/
def endCooldown (provider : String) (retry : Retry) (h : Health) : Health :=
  if retry = .rateLimit then
    Function.update h provider { h provider with cooldownUntil := 0 }
  else h

/-- `onError`, from where its wait is over. -/
def afterWait (error : ProviderError) (ctx : RouterContext) (retry : Retry) (h : Health) :
    Health × Option RouterDecision :=
  match r.route error.provider with
  | none => (endCooldown error.provider retry h, none)
  | some route =>
    if !r.routePolicy route ctx then (endCooldown error.provider retry h, none)
    else
      (endCooldown error.provider retry h,
        some (decision route (Retry.reason retry) (some route.model)))

def onSuccess (provider : String) (h : Health) : Health :=
  if (r.route provider).isSome then
    Function.update h provider ⟨0, 0, false, []⟩
  else h

/-! ### Attempts in flight -/

/-- An attempt at a provider. It is a probe if the decision for it made the provider half-open, and
until the provider is seen to succeed. -/
structure Attempt where
  decision : RouterDecision
  probe : Bool
  deriving DecidableEq, Repr

/-- A wait for a retry. -/
structure Waiting where
  error : ProviderError
  ctx : RouterContext
  retry : Retry
  deriving DecidableEq, Repr

structure State where
  health : Health
  attempts : List Attempt
  waits : List Waiting

def State.initial : State where
  health := Health.initial
  attempts := []
  waits := []

/-- A call of the router, or what becomes of an attempt. -/
inductive Action where
  | pick (ctx : RouterContext) (explicitModel : Option String) (now : ℕ)
  | fails (i : ℕ) (error : ProviderError) (ctx : RouterContext) (now later : ℕ)
  | waitEnds (j : ℕ)
  | waitRejects (j : ℕ)
  | succeeds (i : ℕ)
  | unreported (i : ℕ)

/-- The attempt that a decision leads to. -/
def attemptOf (before after : Health) (decision : RouterDecision) : Attempt where
  decision := decision
  probe := !(before decision.provider).halfOpen && (after decision.provider).halfOpen

/-- A success of a provider leaves no probe of it. -/
def recovered (provider : String) (attempts : List Attempt) : List Attempt :=
  attempts.map fun a => if a.decision.provider = provider then { a with probe := false } else a

/-- The attempt is over, and its error has been given to the router. -/
def State.fail (s : State) (i : ℕ) (error : ProviderError) (ctx : RouterContext)
    (now later : ℕ) : State :=
  match r.onError error ctx now later s.health with
  | (h, .giveUp) => { s with health := h, attempts := s.attempts.eraseIdx i }
  | (h, .decided d) =>
    { s with health := h, attempts := attemptOf s.health h d :: s.attempts.eraseIdx i }
  | (h, .waiting retry) =>
    { health := h, attempts := s.attempts.eraseIdx i, waits := s.waits ++ [⟨error, ctx, retry⟩] }

/-- A wait is over. -/
def State.endWait (s : State) (j : ℕ) (w : Waiting) : State :=
  match r.afterWait w.error w.ctx w.retry s.health with
  | (h, none) => { s with health := h, waits := s.waits.eraseIdx j }
  | (h, some d) =>
    { health := h, attempts := attemptOf s.health h d :: s.attempts, waits := s.waits.eraseIdx j }

def State.succeed (s : State) (i : ℕ) (provider : String) : State :=
  { s with
    health := r.onSuccess provider s.health
    attempts := recovered provider (s.attempts.eraseIdx i) }

def step (s : State) : Action → Option State
  | .pick ctx explicitModel now =>
    match r.pick ctx explicitModel now s.health with
    | .error _ => some s
    | .ok (d, h) => some { s with health := h, attempts := attemptOf s.health h d :: s.attempts }
  | .fails i error ctx now later =>
    s.attempts[i]?.map fun _ => s.fail r i error ctx now later
  | .waitEnds j => s.waits[j]?.map fun w => s.endWait r j w
  | .waitRejects j => s.waits[j]?.map fun _ => { s with waits := s.waits.eraseIdx j }
  | .succeeds i => s.attempts[i]?.map fun a => s.succeed r i a.decision.provider
  | .unreported i => s.attempts[i]?.map fun _ => { s with attempts := s.attempts.eraseIdx i }

/-! ### Stuck providers -/

/-- How many of these attempts are probes of a provider. -/
def probesOf (attempts : List Attempt) (provider : String) : ℕ :=
  attempts.countP fun a => a.probe && a.decision.provider = provider

/-- How many probes of a provider are in flight. -/
def State.probes (s : State) (provider : String) : ℕ :=
  probesOf s.attempts provider

/-- No provider gets stuck: at most one probe of it is in flight, and when no attempt is in flight
it is not half-open, and it is chosen if its cooldown has elapsed and no other is eligible. -/
structure Unstuck (s : State) : Prop where
  single : ∀ provider, s.probes provider ≤ 1
  closed : s.attempts = [] → ∀ provider, (s.health provider).halfOpen = false
  chosen : s.attempts = [] → ∀ route ∈ r.chain, ∀ ctx now,
    (s.health route.provider).cooldownUntil ≤ now → stickyOf ctx = none →
      r.exhausted ctx = false → r.routePolicy route ctx →
      (∀ other ∈ r.chain, r.routePolicy other ctx → other = route) →
      ∃ h, r.pick ctx none now s.health = .ok (decision route "fallback-primary" none, h)

/-- The step closes what is half-open: a probe is reported, as a success or as an error of its
provider that the router takes up, and the router takes up no error of a half-open provider but
of its probe. -/
def Closing (s : State) : Action → Prop
  | .fails i error ctx _ _ => ∀ a ∈ s.attempts[i]?,
      (a.probe → r.takesUp error ctx ∧ error.provider = a.decision.provider) ∧
        (r.takesUp error ctx → (s.health error.provider).halfOpen →
          a.probe ∧ a.decision.provider = error.provider)
  | .unreported i => ∀ a ∈ s.attempts[i]?, a.probe = false
  | _ => True

/-! ### Probes -/

/-- An attempt counts as a probe of this provider. -/
def Attempt.probes (a : Attempt) (provider : String) : Bool :=
  a.probe && a.decision.provider = provider

theorem probesOf_cons (a : Attempt) (attempts : List Attempt) (provider : String) :
  probesOf (a :: attempts) provider = probesOf attempts provider + (a.probes provider).toNat
  := by
  rw [probesOf, countP_cons]
  cases h : a.probes provider with
  | true =>
    rw [Attempt.probes] at h
    rw [h, if_pos rfl]
    rfl
  | false =>
    rw [Attempt.probes] at h
    rw [h, if_neg Bool.false_ne_true]
    rfl

variable {a : Attempt} {i : ℕ}

/-- Without an attempt, there is one probe fewer if it is one. -/
theorem probesOf_eraseIdx {attempts : List Attempt}
    (h : attempts[i]? = some a) (provider : String) :
  probesOf attempts provider = probesOf (attempts.eraseIdx i) provider + (a.probes provider).toNat
  := by
  obtain ⟨hi, rfl⟩ := List.getElem?_eq_some_iff.mp h
  rw [← probesOf_cons]
  apply (getElem_cons_eraseIdx_perm hi).symm.countP_eq

/-- A success leaves no probe of the provider, and the other probes as they are. -/
theorem probesOf_recovered (name : String) (attempts : List Attempt) (provider : String) :
  probesOf (recovered name attempts) provider =
    if provider = name then 0 else probesOf attempts provider
  := by
  induction attempts with
  | nil => simp [recovered, probesOf]
  | cons a attempts ih =>
  rw [recovered] at ih
  rw [recovered, map_cons, probesOf_cons, ih, probesOf_cons]
  by_cases hname : provider = name
  · subst hname
    by_cases ha : a.decision.provider = provider
    all_goals simp [Attempt.probes, ha]
  by_cases ha : a.decision.provider = name
  · have hother : name ≠ provider := fun h => hname h.symm
    simp [Attempt.probes, ha, hname, hother]
  · simp [ha, hname]

/-- The decision makes half-open what its attempt says, and nothing but providers of the chain. -/
structure Started (before after : Health) (d : RouterDecision) : Prop where
  halfOpen : ∀ provider, (after provider).halfOpen.toNat =
    (before provider).halfOpen.toNat + ((attemptOf before after d).probes provider).toNat
  known : ∀ provider, (after provider).halfOpen →
    (before provider).halfOpen ∨ (r.route provider).isSome

variable {r}

variable {d : RouterDecision}

/-- A decision that makes nothing half-open. -/
theorem Started.same {before after : Health}
    (h : ∀ provider, (after provider).halfOpen = (before provider).halfOpen) :
  Started r before after d
  := by
  constructor
  · intro provider
    have hprobe : (attemptOf before after d).probe = false := by
      rw [attemptOf, h, Bool.not_and_self]
    rw [h, Attempt.probes, hprobe, Bool.false_and, Bool.toNat_false, add_zero]
  · intro provider hopen
    left
    rw [← h, hopen]

theorem route_isSome {route : FallbackRoute} (h : route ∈ r.chain) :
  (r.route route.provider).isSome
  := by
  rw [FallbackRouter.route, List.find?_isSome]
  use route, h
  exact decide_eq_true rfl

variable {h h' : Health} {ctx : RouterContext} {now : ℕ}

/-- The available route is one of the routes, not of the excluded provider, and its attempt is a
probe if it made the provider half-open. -/
theorem started_of_availableIn {exclude : Option String}
    {routes : List FallbackRoute} {route : FallbackRoute}
    (hroutes : ∀ route ∈ routes, route ∈ r.chain)
    (havail : r.availableIn ctx exclude now h routes = some (route, h')) (reason : String)
    (model : Option String) :
  some route.provider ≠ exclude ∧ Started r h h' (decision route reason model)
  := by
  induction routes with
  | nil => cases havail
  | cons first rest ih =>
  have hrest := ih fun route hmem => hroutes route (mem_cons_of_mem _ hmem)
  rw [availableIn] at havail
  split_ifs at havail with hexclude hpol hshut hready
  · apply hrest havail
  · apply hrest havail
  · simp only [Option.some.injEq, Prod.mk.injEq] at havail
    obtain ⟨rfl, rfl⟩ := havail
    use hexclude
    apply Started.same fun _ => rfl
  · simp only [Option.some.injEq, Prod.mk.injEq] at havail
    obtain ⟨rfl, rfl⟩ := havail
    obtain ⟨-, hhalf⟩ := hready
    rw [not_eq_true'] at hhalf
    use hexclude
    constructor
    · intro provider
      by_cases hprov : provider = first.provider
      · subst hprov
        simp [attemptOf, Attempt.probes, decision, hhalf]
      · have hother : first.provider ≠ provider := fun h => hprov h.symm
        simp [attemptOf, Attempt.probes, decision, hprov, hother]
    intro provider hopen
    by_cases hprov : provider = first.provider
    · right
      rw [hprov]
      apply route_isSome (hroutes first mem_cons_self)
    · left
      rw [Function.update_of_ne hprov] at hopen
      apply hopen
  · apply hrest havail

/-- A pick starts the attempt that it decides on. -/
theorem started_of_pick {explicitModel : Option String}
    (hpick : r.pick ctx explicitModel now h = .ok (d, h')) :
  Started r h h' d
  := by
  rw [pick] at hpick
  split at hpick
  · split at hpick
    · cases hpick
    split_ifs at hpick
    simp only [Except.ok.injEq, Prod.mk.injEq] at hpick
    obtain ⟨-, rfl⟩ := hpick
    apply Started.same fun _ => rfl
  split_ifs at hpick
  split at hpick
  · split at hpick
    · cases hpick
    · simp only [Except.ok.injEq, Prod.mk.injEq] at hpick
      obtain ⟨-, rfl⟩ := hpick
      apply Started.same fun _ => rfl
  split at hpick
  · cases hpick
  rename_i havail
  simp only [Except.ok.injEq, Prod.mk.injEq] at hpick
  obtain ⟨rfl, rfl⟩ := hpick
  apply (started_of_availableIn (fun _ hmem => hmem) havail _ _).2

theorem halfOpen_noteFailure (error : ProviderError) (h : Health) (provider : String) :
  (noteFailure error h provider).halfOpen =
    if provider = error.provider then false else (h provider).halfOpen
  := by
  by_cases hprov : provider = error.provider
  · subst hprov
    simp [noteFailure]
  · simp [noteFailure, hprov]

/-- A change of one provider's health that leaves it as half-open as it was leaves all so. -/
theorem halfOpen_update {name : String} {health : ProviderHealth}
    (hsame : health.halfOpen = (h name).halfOpen) (provider : String) :
  (Function.update h name health provider).halfOpen = (h provider).halfOpen
  := by
  by_cases hprov : provider = name
  · subst hprov
    rw [Function.update_self, hsame]
  · rw [Function.update_of_ne hprov]

theorem halfOpen_countRetry (name : String) (h : Health) (provider : String) :
  (countRetry name h provider).halfOpen = (h provider).halfOpen
  := by
  apply halfOpen_update
  rfl

variable {error : ProviderError}

/-- While a provider begins to cool down, what is decided starts an attempt at another one. -/
theorem coolDown_spec {later : ℕ}
    {v : Verdict} (hcool : r.coolDown error ctx now later h = (h', v)) :
  (∃ d, v = .decided d ∧ d.provider ≠ error.provider ∧ Started r h h' d) ∨
    (∀ d, v ≠ .decided d) ∧ ∀ provider, (h' provider).halfOpen = (h provider).halfOpen
  := by
  rw [coolDown] at hcool
  have hcooled : ∀ provider, (Function.update h error.provider { h error.provider with
      cooldownUntil := now + max r.cooldownMs (error.retryAfterMs.getD 0) } provider).halfOpen =
        (h provider).halfOpen := halfOpen_update rfl
  generalize Function.update h error.provider { h error.provider with
      cooldownUntil := now + max r.cooldownMs (error.retryAfterMs.getD 0) } = cooled at hcool hcooled
  dsimp only at hcool
  cases havail : r.availableRoute ctx (some error.provider) later cooled with
  | some available =>
    obtain ⟨fallback, opened⟩ := available
    simp only [havail, Prod.mk.injEq] at hcool
    obtain ⟨rfl, rfl⟩ := hcool
    obtain ⟨hne, hstart⟩ := started_of_availableIn (fun _ hmem => hmem) havail
      "fallback" none
    left
    use decision fallback "fallback" none, rfl
    use fun heq => hne (congrArg some heq)
    have hopened : ∀ provider, (Function.update opened error.provider
        { opened error.provider with retryCount := 0 } provider).halfOpen =
          (opened provider).halfOpen := halfOpen_update rfl
    constructor
    · intro provider
      have h' := hstart.halfOpen provider
      rw [hopened, h', hcooled]
      simp only [Attempt.probes, attemptOf, hopened, hcooled]
    intro provider hopen
    rw [hopened] at hopen
    rw [← hcooled]
    apply hstart.known provider hopen
  | none =>
  right
  simp only [havail] at hcool
  split_ifs at hcool
  · simp only [Prod.mk.injEq] at hcool
    obtain ⟨rfl, rfl⟩ := hcool
    use nofun
    intro provider
    rw [halfOpen_countRetry, hcooled]
  · simp only [Prod.mk.injEq] at hcool
    obtain ⟨rfl, rfl⟩ := hcool
    use nofun, hcooled

/-- An error that is taken up closes its provider, and what is decided on it starts an attempt at
another provider. -/
theorem onError_spec {later : ℕ} {v : Verdict} (htakes : r.takesUp error ctx)
    (herror : r.onError error ctx now later h = (h', v)) :
  (∃ d, v = .decided d ∧ d.provider ≠ error.provider ∧ Started r (noteFailure error h) h' d) ∨
    (∀ d, v ≠ .decided d) ∧
      ∀ provider, (h' provider).halfOpen = (noteFailure error h provider).halfOpen
  := by
  rw [onError, htakes, Bool.not_true, if_neg Bool.false_ne_true] at herror
  dsimp only at herror
  split at herror
  · right
    split_ifs at herror
    · simp only [Prod.mk.injEq] at herror
      obtain ⟨rfl, rfl⟩ := herror
      use nofun
      intro _
      rfl
    simp only [Prod.mk.injEq] at herror
    obtain ⟨rfl, rfl⟩ := herror
    use nofun
    intro provider
    rw [halfOpen_countRetry]
  split_ifs at herror
  · right
    simp only [Prod.mk.injEq] at herror
    obtain ⟨rfl, rfl⟩ := herror
    use nofun
    intro provider
    rw [halfOpen_countRetry]
  · apply coolDown_spec herror

/-- A wait that is over changes nothing that is half-open. -/
theorem halfOpen_afterWait {retry : Retry}
    {d : Option RouterDecision} (hwait : r.afterWait error ctx retry h = (h', d))
    (provider : String) :
  (h' provider).halfOpen = (h provider).halfOpen
  := by
  have hsame : (endCooldown error.provider retry h provider).halfOpen = (h provider).halfOpen := by
    rw [endCooldown]
    split_ifs
    · apply halfOpen_update
      rfl
    · rfl
  rw [afterWait] at hwait
  split at hwait
  · rw [← (Prod.mk.inj hwait).1, hsame]
  · split_ifs at hwait
    all_goals rw [← (Prod.mk.inj hwait).1, hsame]

/-! ### The invariant -/

/-- A provider is half-open exactly while one probe of it is in flight, and it is of the chain. -/
structure Probing (r : FallbackRouter) (s : State) : Prop where
  halfOpen : ∀ provider, s.probes provider = (s.health provider).halfOpen.toNat
  known : ∀ provider, (s.health provider).halfOpen → (r.route provider).isSome

theorem Probing.initial : Probing r State.initial where
  halfOpen _ := rfl
  known _ h := by cases h

variable {s : State}

/-- An attempt that is started keeps the invariant. -/
theorem Probing.start {waits : List Waiting} (hs : Probing r s) (hstart : Started r s.health h d) :
  Probing r ⟨h, attemptOf s.health h d :: s.attempts, waits⟩
  := by
  constructor
  · intro provider
    rw [State.probes, probesOf_cons, hstart.halfOpen, ← hs.halfOpen provider, State.probes]
  intro provider hopen
  rcases hstart.known provider hopen with hpre | hknown
  · apply hs.known provider hpre
  · apply hknown

/-- The invariant speaks of what is half-open and of the attempts alone. -/
theorem Probing.congr {waits : List Waiting} (hs : Probing r s)
    (hsame : ∀ provider, (h provider).halfOpen = (s.health provider).halfOpen) :
  Probing r ⟨h, s.attempts, waits⟩
  := by
  constructor
  · intro provider
    rw [hsame]
    apply hs.halfOpen
  · intro provider hopen
    rw [hsame] at hopen
    apply hs.known provider hopen

/-- The attempt is over and was no probe. -/
theorem Probing.drop (hs : Probing r s) (ha : s.attempts[i]? = some a) (hprobe : a.probe = false) :
  Probing r { s with attempts := s.attempts.eraseIdx i }
  := by
  constructor
  · intro provider
    have herase := probesOf_eraseIdx ha provider
    rw [Attempt.probes, hprobe, Bool.false_and, Bool.toNat_false, add_zero] at herase
    rw [State.probes, ← herase]
    apply hs.halfOpen
  · apply hs.known

/-- The attempt is over, and its error has been noted. -/
theorem Probing.noted
    (hs : Probing r s) (ha : s.attempts[i]? = some a)
    (hown : a.probe → error.provider = a.decision.provider)
    (hoth : (s.health error.provider).halfOpen →
      a.probe ∧ a.decision.provider = error.provider) :
  Probing r { s with
    health := noteFailure error s.health
    attempts := s.attempts.eraseIdx i }
  := by
  constructor
  · intro provider
    have herase := probesOf_eraseIdx ha provider
    have hopen : probesOf s.attempts provider = (s.health provider).halfOpen.toNat :=
      hs.halfOpen provider
    rw [State.probes, halfOpen_noteFailure]
    by_cases hprov : provider = error.provider
    · subst hprov
      rw [if_pos rfl]
      cases hhalf : (s.health error.provider).halfOpen with
      | true =>
        obtain ⟨hprobe, hname⟩ := hoth hhalf
        have hcounts : a.probes error.provider := by
          rw [Attempt.probes, hprobe, Bool.true_and]
          exact decide_eq_true hname
        rw [hcounts, hopen, hhalf] at herase
        change probesOf (s.attempts.eraseIdx i) error.provider = 0
        rw [toNat_true] at herase
        omega
      | false =>
        rw [hopen, hhalf, toNat_false] at herase
        exact (Nat.add_eq_zero_iff.mp herase.symm).1
    rw [if_neg hprov]
    have hcounts : a.probes provider = false := by
      rw [Attempt.probes, and_eq_false_iff]
      by_cases hprobe : a.probe
      · right
        rw [← hown hprobe]
        exact decide_eq_false fun h => hprov h.symm
      · left
        exact eq_false_iff.mpr hprobe
    rw [hcounts, toNat_false, add_zero] at herase
    rw [← herase, hopen]
  intro provider hopen
  rw [halfOpen_noteFailure] at hopen
  split_ifs at hopen
  apply hs.known provider hopen

/-- A decision after a failure starts its attempt as if the failure had been noted before. -/
theorem attemptOf_noteFailure
    (hne : d.provider ≠ error.provider) :
  attemptOf h h' d = attemptOf (noteFailure error h) h' d
  := by
  rw [attemptOf, attemptOf, halfOpen_noteFailure, if_neg hne]

/-- An error that closes what is half-open keeps the invariant. -/
theorem Probing.fail
    {later : ℕ} (hs : Probing r s) (ha : s.attempts[i]? = some a)
    (hclose : Closing r s (.fails i error ctx now later)) :
  Probing r (s.fail r i error ctx now later)
  := by
  obtain ⟨hown, hoth⟩ := hclose a ha
  rw [State.fail]
  cases htakes : r.takesUp error ctx with
  | false =>
    have hprobe : a.probe = false := by
      rw [eq_false_iff]
      intro hprobe
      rw [(hown hprobe).1] at htakes
      cases htakes
    have hgiveUp : r.onError error ctx now later s.health = (s.health, .giveUp) := by
      rw [onError, htakes, Bool.not_false, if_pos rfl]
    simp only [hgiveUp]
    apply hs.drop ha hprobe
  | true =>
  have hnoted := hs.noted ha (fun hprobe => (hown hprobe).2) (hoth htakes)
  cases herror : r.onError error ctx now later s.health with
  | mk h v =>
  rcases onError_spec htakes herror with ⟨d, rfl, hne, hstart⟩ | ⟨hno, hsame⟩
  · change Probing r ⟨h, attemptOf s.health h d :: s.attempts.eraseIdx i, s.waits⟩
    rw [attemptOf_noteFailure hne]
    apply hnoted.start hstart
  cases v with
  | giveUp => exact hnoted.congr hsame
  | decided d => apply absurd rfl (hno d)
  | waiting retry => exact hnoted.congr hsame

/-- A success closes its provider. -/
theorem Probing.succeed (hs : Probing r s) (ha : s.attempts[i]? = some a) :
  Probing r (s.succeed r i a.decision.provider)
  := by
  have hopen : ∀ provider, (r.onSuccess a.decision.provider s.health provider).halfOpen =
      if provider = a.decision.provider then false else (s.health provider).halfOpen := by
    intro provider
    rw [onSuccess]
    split_ifs with hroute hprov hprov
    · rw [hprov, Function.update_self]
    · rw [Function.update_of_ne hprov]
    · rw [hprov, eq_false_iff]
      intro hhalf
      apply hroute (hs.known _ hhalf)
    · rfl
  constructor
  · intro provider
    rw [State.probes, State.succeed, probesOf_recovered, hopen]
    split_ifs with hprov
    · rfl
    have herase := probesOf_eraseIdx ha provider
    have hcounts : a.probes provider = false := by
      rw [Attempt.probes, and_eq_false_iff]
      right
      exact decide_eq_false fun h => hprov h.symm
    rw [hcounts, toNat_false, add_zero] at herase
    rw [← herase]
    apply hs.halfOpen
  intro provider hhalf
  rw [State.succeed, hopen] at hhalf
  split_ifs at hhalf
  apply hs.known provider hhalf

/-- A step that closes what is half-open keeps the invariant. -/
theorem Probing.step {t : State} {a : Action} (hs : Probing r s) (hclose : Closing r s a)
    (ht : step r s a = some t) :
  Probing r t
  := by
  cases a with
  | pick ctx explicitModel now =>
    rw [FallbackRouter.step] at ht
    split at ht
    · cases ht
      apply hs
    · rename_i hpick
      cases ht
      apply hs.start (started_of_pick hpick)
  | fails i error ctx now later =>
    rw [FallbackRouter.step, Option.map_eq_some_iff] at ht
    obtain ⟨a, ha, rfl⟩ := ht
    apply hs.fail ha hclose
  | waitEnds j =>
    rw [FallbackRouter.step, Option.map_eq_some_iff] at ht
    obtain ⟨w, -, rfl⟩ := ht
    rw [State.endWait]
    split
    · next hwait => exact hs.congr (halfOpen_afterWait hwait)
    · next hwait => exact hs.start (Started.same (halfOpen_afterWait hwait))
  | waitRejects j =>
    rw [FallbackRouter.step, Option.map_eq_some_iff] at ht
    obtain ⟨w, -, rfl⟩ := ht
    exact hs.congr fun _ => rfl
  | succeeds i =>
    rw [FallbackRouter.step, Option.map_eq_some_iff] at ht
    obtain ⟨a, ha, rfl⟩ := ht
    apply hs.succeed ha
  | unreported i =>
    rw [FallbackRouter.step, Option.map_eq_some_iff] at ht
    obtain ⟨a, ha, rfl⟩ := ht
    apply hs.drop ha (hclose a ha)

/-! ### No provider gets stuck -/

/-- The only eligible route is available, if its cooldown has elapsed and it is not half-open. -/
theorem availableIn_of_only {route : FallbackRoute}
    {routes : List FallbackRoute} (hmem : route ∈ routes) (hpol : r.routePolicy route ctx)
    (honly : ∀ other ∈ routes, r.routePolicy other ctx → other = route)
    (helapsed : (h route.provider).cooldownUntil ≤ now)
    (hshut : (h route.provider).halfOpen = false) :
  ∃ h', r.availableIn ctx none now h routes = some (route, h')
  := by
  induction routes with
  | nil => cases hmem
  | cons first rest ih =>
  rw [availableIn, if_neg (by simp)]
  by_cases hfirst : r.routePolicy first ctx
  · obtain rfl := honly first mem_cons_self hfirst
    rw [hfirst, Bool.not_true, if_neg Bool.false_ne_true]
    by_cases hcold : (h first.provider).cooldownUntil = 0
    · rw [if_pos hcold]
      exact ⟨_, rfl⟩
    · rw [if_neg hcold, if_pos ⟨helapsed, by rw [hshut, Bool.not_false]⟩]
      exact ⟨_, rfl⟩
  have hne : route ≠ first := by
    rintro rfl
    apply hfirst hpol
  rw [not_eq_true] at hfirst
  rw [hfirst, Bool.not_false, if_pos rfl]
  apply ih ((mem_cons.mp hmem).resolve_left hne)
  intro other hother
  apply honly other (mem_cons_of_mem _ hother)

/-- No provider is stuck where each half-open one has its probe in flight. -/
theorem Probing.unstuck (hs : Probing r s) :
  Unstuck r s
  := by
  have hshut : s.attempts = [] → ∀ provider, (s.health provider).halfOpen = false := by
    intro hnil provider
    have hopen := hs.halfOpen provider
    rw [State.probes, hnil] at hopen
    cases hhalf : (s.health provider).halfOpen with
    | false => rfl
    | true =>
      rw [hhalf] at hopen
      cases hopen
  constructor
  · intro provider
    rw [hs.halfOpen]
    apply toNat_le
  · apply hshut
  intro hnil route hmem ctx now helapsed hstick hexh hpol honly
  obtain ⟨h, havail⟩ := availableIn_of_only hmem hpol honly helapsed
    (hshut hnil route.provider)
  use h
  have hroute : r.availableRoute ctx none now s.health = some (route, h) := havail
  simp only [pick, hstick, hexh, Option.bind_none, hroute, if_neg Bool.false_ne_true]

variable (r) in
/-- In every run whose steps close what is half-open, no provider gets stuck. -/
theorem unstuck_of_closing
    (as : List Action) (s : State) (hok : Guarded (step r) (Closing r) State.initial as)
    (hrun : run (step r) State.initial as = some s) :
  Unstuck r s
  := by
  have hprobing : Probing r s :=
    hok.invariant (fun _ _ _ hs hclose ht => hs.step hclose ht) Probing.initial hrun
  apply hprobing.unstuck

/-- A router with one provider, that it never tries again at once. -/
def sampleRouter : FallbackRouter where
  chain := [⟨"a", "model", 0⟩]
  cooldownMs := 60000
  maxAttempts := 6
  maxRetries := 0
  routePolicy _ _ := true
  nonempty := nofun
  distinct := by decide

def sampleContext : RouterContext where
  session := ⟨"s", 0, none, none⟩
  turnId := "t"
  attemptCount := 0
  budget := none
  elapsedTimeMs := none
  aborted := false

/-- An error of the provider. -/
def sampleError (category : ProviderErrorCategory) (retryable : Bool) : ProviderError where
  message := "error"
  provider := "a"
  model := none
  status := none
  category := category
  retryable := retryable
  retryAfterMs := none
  cause := none

/-- The provider fails, cools down, and is probed. -/
def probed : List Action :=
  [.pick sampleContext none 0, .fails 0 (sampleError .network true) sampleContext 0 0,
    .pick sampleContext none 60000]

theorem unstuck_of_closing_probed :
  ∃ s, run (step sampleRouter) State.initial (probed ++ [.succeeds 0]) = some s ∧
    Unstuck sampleRouter s
  := by
  refine ⟨_, rfl, unstuck_of_closing sampleRouter (probed ++ [.succeeds 0]) _ ?_ rfl⟩
  refine ⟨True.intro, ?_, True.intro, True.intro, True.intro⟩
  intro a ha
  cases ha
  exact ⟨nofun, nofun⟩

/-- A probe that ends in an error of authentication leaves the provider half-open for good. -/
theorem not_unstuck :
  ¬ ∀ r as s, run (step r) State.initial as = some s → Unstuck r s
  := by
  intro h
  have hunstuck := h sampleRouter
    (probed ++ [.fails 0 (sampleError .auth false) sampleContext 60000 60000]) _ rfl
  cases hunstuck.closed rfl "a"

end FallbackRouter

end Router
