import VolundCode.Router.FallbackRouter

/-!
# The cost-aware router

`CostAwareRouter` wraps the fallback router: only a route whose projected cost fits in what is left
of the budget may be tried, and a decision shows the pricing of its route.

Decisions after an error, and those for a session that sticks to a provider, stay within the budget
after any failures. A first decision need not: a provider that is named explicitly is not asked
what it costs, and an explicit model alone takes the place of the model of whichever route is
tried, which may make a pair that no route has (`not_within`). First decisions stay within the
budget exactly if neither happens (`within_iff`).
-/

namespace Router

open List

open Permission (VolundError)
open FallbackRouter (stickyOf splitExplicit decision)

structure StaticModelPricing where
  inputUSDPerMillionTokens : ℚ
  outputUSDPerMillionTokens : ℚ
  deriving DecidableEq, Repr

structure CostAwareRoute extends FallbackRoute where
  pricing : StaticModelPricing
  deriving DecidableEq, Repr

structure EstimatedUsage where
  inputTokens : ℚ
  outputTokens : ℚ
  deriving DecidableEq, Repr

/-- What a decision shows of its costs. -/
structure CostMetadata where
  pricing : Option StaticModelPricing
  estimatedUsage : Option EstimatedUsage
  projectedCostUSD : Option ℚ
  remainingBudgetUSD : Option ℚ
  deriving DecidableEq, Repr

structure CostDecision extends RouterDecision where
  metadata : CostMetadata
  deriving DecidableEq, Repr

/-- What an error leads to, as the fallback router's `Verdict`. -/
inductive CostVerdict where
  | giveUp
  | decided (decision : CostDecision)
  | waiting (retry : FallbackRouter.Retry)

/-- What the constructor keeps of its arguments. `base` is the wrapped router but for its route
policy. -/
structure CostAwareRouter where
  routes : List CostAwareRoute
  defaultEstimatedUsage : Option EstimatedUsage
  base : FallbackRouter
  chain : base.chain = FallbackRouter.sortChain (routes.map CostAwareRoute.toFallbackRoute)

namespace CostAwareRouter

def negative (value : ℚ) (label : String) : Option VolundError :=
  if value < 0 then
    some ⟨"cost_router_" ++ label ++ "_invalid", "cost_router_" ++ label ++ "_invalid"⟩
  else none

/-- The error of `assertUsage`. -/
def usageError (usage : EstimatedUsage) : Option VolundError :=
  negative usage.inputTokens "input_tokens" <|> negative usage.outputTokens "output_tokens"

def pricingError (route : CostAwareRoute) : Option VolundError :=
  negative route.pricing.inputUSDPerMillionTokens "input_pricing" <|>
    negative route.pricing.outputUSDPerMillionTokens "output_pricing"

theorem chain_of_create {chain : List FallbackRoute} {options : FallbackRouterOptions}
    {base : FallbackRouter} (h : FallbackRouter.create chain options = .ok base) :
  base.chain = FallbackRouter.sortChain chain
  := by
  rw [FallbackRouter.create] at h
  split_ifs at h
  split at h
  · cases h
  cases h
  rfl

/-- The constructor. -/
def create (routes : List CostAwareRoute) (options : FallbackRouterOptions)
    (defaultEstimatedUsage : Option EstimatedUsage) : Except VolundError CostAwareRouter :=
  if routes = [] then .error ⟨"cost_router_routes_empty", "cost_router_routes_empty"⟩
  else
    match routes.findSome? pricingError <|> defaultEstimatedUsage.bind usageError with
    | some error => .error error
    | none =>
      match h : FallbackRouter.create (routes.map CostAwareRoute.toFallbackRoute) options with
      | .error error => .error error
      | .ok base => .ok ⟨routes, defaultEstimatedUsage, base, chain_of_create h⟩

variable (R : CostAwareRouter)

/-- The estimate of a call's usage. The context has it in the source. -/
def usage (estimatedUsage : Option EstimatedUsage) : Option EstimatedUsage :=
  estimatedUsage <|> R.defaultEstimatedUsage

def projectedCost (pricing : StaticModelPricing) (usage : EstimatedUsage) : ℚ :=
  (usage.inputTokens * pricing.inputUSDPerMillionTokens +
    usage.outputTokens * pricing.outputUSDPerMillionTokens) / 1000000

def costUSDMax (ctx : RouterContext) : Option ℚ :=
  ctx.budget.bind Budget.costUSDMax

/-- The priced route that a route of the chain comes from. -/
def priced (route : FallbackRoute) : Option CostAwareRoute :=
  R.routes.find? fun candidate =>
    candidate.provider = route.provider ∧ candidate.model = route.model

/-- The projected cost of the route fits in the budget. Of a negative budget or cost, for which the
source throws, no route is affordable. -/
def isAffordable (estimatedUsage : Option EstimatedUsage) (route : FallbackRoute)
    (ctx : RouterContext) : Bool :=
  match costUSDMax ctx with
  | none => true
  | some max =>
    0 ≤ max && 0 ≤ ctx.session.cumulativeCostUSD &&
    (R.priced route).any fun priced => (R.usage estimatedUsage).any fun usage =>
      ctx.session.cumulativeCostUSD + projectedCost priced.pricing usage ≤ max

/-- The wrapped router, for calls with this estimate. -/
def fallback (estimatedUsage : Option EstimatedUsage) : FallbackRouter :=
  { R.base with routePolicy := R.isAffordable estimatedUsage }

/-- What a decision for this route shows. -/
def metadata (estimatedUsage : Option EstimatedUsage) (route : Option FallbackRoute)
    (ctx : RouterContext) : CostMetadata :=
  let pricing := (route.bind R.priced).map CostAwareRoute.pricing
  { pricing := pricing
    estimatedUsage := R.usage estimatedUsage
    projectedCostUSD := pricing.bind fun pricing =>
      (R.usage estimatedUsage).map (projectedCost pricing)
    remainingBudgetUSD := (costUSDMax ctx).map fun limit =>
      max 0 (limit - ctx.session.cumulativeCostUSD) }

/-- The decision as it is returned. Its metadata is that of the route it is for, which its provider
tells, as the providers are distinct. -/
def explain (ctx : RouterContext) (estimatedUsage : Option EstimatedUsage)
    (d : RouterDecision) : CostDecision where
  provider := d.provider
  model := d.model
  reason := "cost-aware:" ++ d.reason
  metadata := R.metadata estimatedUsage ((R.fallback estimatedUsage).route d.provider) ctx

/-- Some route has the explicit model, and the explicit provider unless its name is empty. -/
def matched (explicit : String) : Bool :=
  match splitExplicit explicit with
  | some (providerName, model) => R.routes.any fun route =>
    (providerName = "" || route.provider = providerName) && route.model = model
  | none => R.routes.any fun route => route.model = explicit

/-- The error with which a call is refused at once. -/
def preflight (ctx : RouterContext) (estimatedUsage : Option EstimatedUsage)
    (explicitModel : Option String) : Option VolundError :=
  if (costUSDMax ctx).isSome && (R.usage estimatedUsage).isNone then
    some ⟨"cost_router_usage_estimate_missing", "cost_router_usage_estimate_missing"⟩
  else
    (R.usage estimatedUsage).bind usageError <|>
    (if explicitModel.any fun explicit => explicit ≠ "" && !R.matched explicit then
      some ⟨"cost_router_explicit_model_unpriced", "cost_router_explicit_model_unpriced"⟩
    else none)

/-- The error of the first look at a route's costs. -/
def budgetError (ctx : RouterContext) : Option VolundError :=
  (costUSDMax ctx).bind fun max =>
    negative max "budget" <|> negative ctx.session.cumulativeCostUSD "cumulative_cost"

def pick (ctx : RouterContext) (estimatedUsage : Option EstimatedUsage)
    (explicitModel : Option String) (now : ℕ) (h : Health) :
    Except VolundError (CostDecision × Health) :=
  match R.preflight ctx estimatedUsage explicitModel <|> budgetError ctx with
  | some error => .error error
  | none =>
    if R.routes.any fun route => R.isAffordable estimatedUsage route.toFallbackRoute ctx then
      ((R.fallback estimatedUsage).pick ctx explicitModel now h).map fun result =>
        (R.explain ctx estimatedUsage result.1, result.2)
    else .error ⟨"cost_router_no_affordable_route", "cost_router_no_affordable_route"⟩

/-- `onError`, up to its wait. -/
def onError (error : ProviderError) (ctx : RouterContext) (estimatedUsage : Option EstimatedUsage)
    (now later : ℕ) (h : Health) : Except VolundError (Health × CostVerdict) :=
  match R.preflight ctx estimatedUsage none with
  | some error => .error error
  | none =>
    match (R.fallback estimatedUsage).onError error ctx now later h with
    | (h', .giveUp) => .ok (h', .giveUp)
    | (h', .decided d) => .ok (h', .decided (R.explain ctx estimatedUsage d))
    | (h', .waiting retry) => .ok (h', .waiting retry)

/-- `onError`, from where its wait is over. -/
def afterWait (error : ProviderError) (ctx : RouterContext)
    (estimatedUsage : Option EstimatedUsage) (retry : FallbackRouter.Retry) (h : Health) :
    Health × Option CostDecision :=
  (((R.fallback estimatedUsage).afterWait error ctx retry h).1,
    ((R.fallback estimatedUsage).afterWait error ctx retry h).2.map (R.explain ctx estimatedUsage))

/-! ### Decisions within the budget -/

variable (ctx : RouterContext) (estimatedUsage : Option EstimatedUsage)

/-- The decision names a configured pair, shows its pricing, and its projected cost is within the
budget. -/
def Within (d : CostDecision) : Prop :=
  ∃ route ∈ R.routes, d.provider = route.provider ∧ d.model = route.model ∧
    d.metadata.pricing = some route.pricing ∧
      ∀ max ∈ costUSDMax ctx, ∃ usage ∈ R.usage estimatedUsage,
        ctx.session.cumulativeCostUSD + projectedCost route.pricing usage ≤ max

/-- The call is not refused before a route is chosen. -/
def Admits (explicitModel : Option String) : Prop :=
  R.preflight ctx estimatedUsage explicitModel = none ∧ budgetError ctx = none ∧
    ∃ route ∈ R.routes, R.isAffordable estimatedUsage route.toFallbackRoute ctx

/-- The route is affordable, and neither cooling down nor being probed. -/
def isOpen (now : ℕ) (h : Health) (route : FallbackRoute) : Bool :=
  R.isAffordable estimatedUsage route ctx && ((h route.provider).cooldownUntil = 0 ||
    decide ((h route.provider).cooldownUntil ≤ now) && !(h route.provider).halfOpen)

/-- What an admitted call of a session without a sticky provider asks for explicitly: the route of
a named provider is affordable and has the model, and a model alone is that of the first open
route. -/
structure Keeps (explicitModel : Option String) (now : ℕ) (h : Health) : Prop where
  named : ∀ explicit ∈ explicitModel, ∀ provider model,
    splitExplicit explicit = some (provider, model) →
      ∀ route ∈ R.routes, route.provider = provider → route.model = model ∧
        R.isAffordable estimatedUsage route.toFallbackRoute ctx
  bare : ∀ explicit ∈ explicitModel, splitExplicit explicit = none →
    ∀ route ∈ R.base.chain.find? (R.isOpen ctx estimatedUsage now h), route.model = explicit

/-- The call gets as far as to look at what is asked for explicitly. -/
def Asks (explicitModel : Option String) : Prop :=
  R.Admits ctx estimatedUsage explicitModel ∧ stickyOf ctx = none ∧ R.base.exhausted ctx = false

variable {R} {ctx estimatedUsage}

/-- The routes of the chain are those given, without their pricing. -/
theorem mem_chain {route : FallbackRoute} :
  route ∈ R.base.chain ↔ ∃ given ∈ R.routes, given.toFallbackRoute = route
  := by
  rw [R.chain, FallbackRouter.sortChain, (perm_insertionSort _ _).mem_iff, mem_map]

variable {given other : CostAwareRoute}

theorem eq_of_provider (hgiven : given ∈ R.routes) (hother : other ∈ R.routes)
    (h : other.provider = given.provider) :
  other = given
  := by
  have hdist := R.base.distinct
  rw [R.chain, FallbackRouter.sortChain, ((perm_insertionSort _ _).map _).nodup_iff,
    map_map] at hdist
  apply inj_on_of_nodup_map hdist hother hgiven h

theorem route_of_mem (hgiven : given ∈ R.routes) :
  (R.fallback estimatedUsage).route given.provider = some given.toFallbackRoute
  := by
  have hsome := FallbackRouter.route_isSome (r := R.fallback estimatedUsage)
    (mem_chain.mpr ⟨given, hgiven, rfl⟩)
  obtain ⟨route, hroute⟩ := Option.isSome_iff_exists.mp hsome
  have hprov := find?_some hroute
  obtain ⟨other, hother, rfl⟩ := mem_chain.mp (mem_of_find?_eq_some hroute)
  rw [hroute, eq_of_provider hgiven hother (of_decide_eq_true hprov)]

/-- A route is priced as it was given. -/
theorem priced_of_mem (hgiven : given ∈ R.routes) :
  R.priced given.toFallbackRoute = some given
  := by
  cases h : R.priced given.toFallbackRoute with
  | none =>
    rw [priced, find?_eq_none] at h
    simpa using h given hgiven
  | some other =>
  have hsame := find?_some h
  rw [eq_of_provider hgiven (mem_of_find?_eq_some h) (of_decide_eq_true hsame).1]

theorem negative_eq_none {value : ℚ} {label : String} :
  negative value label = none ↔ 0 ≤ value
  := by
  rw [negative]
  split_ifs with h
  · simpa using h
  · simpa using h

variable {d : RouterDecision}

/-- A decision for a route is within the budget exactly if it has the route's model, and the route
is affordable. -/
theorem within_explain (hbudget : budgetError ctx = none) (hgiven : given ∈ R.routes)
    (hprov : d.provider = given.provider) :
  R.Within ctx estimatedUsage (R.explain ctx estimatedUsage d) ↔
    d.model = given.model ∧ R.isAffordable estimatedUsage given.toFallbackRoute ctx
  := by
  have hpricing : (R.explain ctx estimatedUsage d).metadata.pricing = some given.pricing := by
    simp [explain, metadata, hprov, route_of_mem hgiven, priced_of_mem hgiven]
  have haff : R.isAffordable estimatedUsage given.toFallbackRoute ctx ↔
      ∀ max ∈ costUSDMax ctx, ∃ usage ∈ R.usage estimatedUsage,
        ctx.session.cumulativeCostUSD + projectedCost given.pricing usage ≤ max := by
    rw [budgetError] at hbudget
    cases hmax : costUSDMax ctx with
    | none => simp [isAffordable, hmax]
    | some max =>
    rw [hmax, Option.bind_some, Option.orElse_eq_none, negative_eq_none,
      negative_eq_none] at hbudget
    cases husage : R.usage estimatedUsage with
    | none => simp [isAffordable, hmax, husage, priced_of_mem hgiven]
    | some usage => simp [isAffordable, hmax, husage, priced_of_mem hgiven, hbudget]
  rw [haff]
  constructor
  · rintro ⟨other, hother, hsame, hmodel, -, hcost⟩
    rw [eq_of_provider hgiven hother (hsame.symm.trans hprov)] at hmodel hcost
    use hmodel, hcost
  · rintro ⟨hmodel, hcost⟩
    use given, hgiven, hprov, hmodel, hpricing, hcost

variable {explicitModel : Option String} {now later : ℕ} {h h' : Health}

/-- A call that is admitted is the wrapped router's. -/
theorem pick_ok_iff {d : CostDecision} :
  R.pick ctx estimatedUsage explicitModel now h = .ok (d, h') ↔
    R.Admits ctx estimatedUsage explicitModel ∧
      ∃ inner, (R.fallback estimatedUsage).pick ctx explicitModel now h = .ok (inner, h') ∧
        R.explain ctx estimatedUsage inner = d
  := by
  rw [pick, Admits, ← and_assoc, ← Option.orElse_eq_none]
  split
  · next hrefd => simp [hrefd]
  rename_i hpasses
  rw [← any_eq_true]
  split_ifs with hsome
  · cases (R.fallback estimatedUsage).pick ctx explicitModel now h with
    | error => simp [hpasses, hsome, Except.map]
    | ok result => simp [hpasses, hsome, Except.map, Prod.ext_iff, and_comm]
  · simp [hsome]

/-- The first available route is the first that is open. -/
theorem availableRoute_fst :
  ((R.fallback estimatedUsage).availableRoute ctx none now h).map Prod.fst =
    R.base.chain.find? (R.isOpen ctx estimatedUsage now h)
  := by
  rw [FallbackRouter.availableRoute]
  change Option.map Prod.fst ((R.fallback estimatedUsage).availableIn ctx none now h R.base.chain) =
    _
  induction R.base.chain with
  | nil => rfl
  | cons route rest ih =>
  have hpol : (R.fallback estimatedUsage).routePolicy route ctx =
      R.isAffordable estimatedUsage route ctx := rfl
  rw [FallbackRouter.availableIn, if_neg (Option.some_ne_none _), hpol, find?_cons]
  cases haff : R.isAffordable estimatedUsage route ctx with
  | false => simpa [isOpen, haff] using ih
  | true =>
  split_ifs with hfalse hshut hready
  · cases hfalse
  · simp [isOpen, haff, hshut]
  · simp [isOpen, haff, hready]
  rw [ih]
  cases hhalf : (h route.provider).halfOpen with
  | true => simp [isOpen, haff, hshut, hhalf]
  | false =>
  have hlate : ¬(h route.provider).cooldownUntil ≤ now := by
    intro hle
    apply hready
    rw [hhalf]
    use hle
    rfl
  simp [isOpen, hshut, hlate]

/-- A route that is available is eligible. -/
theorem of_availableIn {r : FallbackRouter} {exclude : Option String} {routes : List FallbackRoute}
    {route : FallbackRoute} (havail : r.availableIn ctx exclude now h routes = some (route, h')) :
  route ∈ routes ∧ r.routePolicy route ctx
  := by
  induction routes with
  | nil => cases havail
  | cons first rest ih =>
  rw [FallbackRouter.availableIn] at havail
  split_ifs at havail with hexclude hpol
  · use mem_cons_of_mem _ (ih havail).1, (ih havail).2
  · use mem_cons_of_mem _ (ih havail).1, (ih havail).2
  · cases havail
    use mem_cons_self
    simpa using hpol
  · cases havail
    use mem_cons_self
    simpa using hpol
  · use mem_cons_of_mem _ (ih havail).1, (ih havail).2

/-- What the router decides on at an error is for an eligible route. -/
theorem of_onError {r : FallbackRouter} {error : ProviderError}
    (herror : r.onError error ctx now later h = (h', .decided d)) :
  ∃ route ∈ r.chain, r.routePolicy route ctx ∧ d = decision route "fallback" none
  := by
  rw [FallbackRouter.onError] at herror
  split_ifs at herror
  · cases herror
  dsimp only at herror
  split at herror
  · split_ifs at herror
    all_goals cases herror
  split_ifs at herror
  · cases herror
  rw [FallbackRouter.coolDown] at herror
  dsimp only at herror
  split at herror
  · rename_i havail
    cases herror
    obtain ⟨hmem, hpol⟩ := of_availableIn havail
    exact ⟨_, hmem, hpol, rfl⟩
  split_ifs at herror
  all_goals cases herror

/-- An affordable route is within the budget with its own model. -/
theorem within_of_affordable {route : FallbackRoute} (hroute : route ∈ R.base.chain)
    (haff : R.isAffordable estimatedUsage route ctx)
    (hprov : d.provider = route.provider) (hmodel : d.model = route.model) :
  R.Within ctx estimatedUsage (R.explain ctx estimatedUsage d)
  := by
  obtain ⟨given, hgiven, rfl⟩ := mem_chain.mp hroute
  rw [within_explain ?_ hgiven hprov]
  · use hmodel, haff
  rw [budgetError]
  cases hmax : costUSDMax ctx with
  | none => rfl
  | some max =>
  simp only [isAffordable, hmax, Bool.and_eq_true, decide_eq_true_eq] at haff
  simp [negative_eq_none, haff]

/-- A decision for a session that sticks to a provider is within the budget, and so is one that
nothing explicit is asked for. -/
theorem pick_iff :
  (∀ d h', R.pick ctx estimatedUsage explicitModel now h = .ok (d, h') →
      R.Within ctx estimatedUsage d) ↔
    (R.Asks ctx estimatedUsage explicitModel → R.Keeps ctx estimatedUsage explicitModel now h)
  := by
  simp only [pick_ok_iff, Asks]
  by_cases hadmits : R.Admits ctx estimatedUsage explicitModel
  case neg => simp [hadmits]
  have hbudget := hadmits.2.1
  simp only [hadmits, true_and]
  rw [FallbackRouter.pick]
  cases hstick : stickyOf ctx with
  | some sticky =>
    simp only [reduceCtorEq, false_and, false_implies, iff_true]
    rintro d h' ⟨inner, hinner, rfl⟩
    cases hroute : (R.fallback estimatedUsage).route sticky with
    | none => simp [hroute] at hinner
    | some route =>
    simp only [hroute] at hinner
    split_ifs at hinner with hpol
    cases hinner
    rw [Bool.not_eq_true', Bool.not_eq_false] at hpol
    apply within_of_affordable (mem_of_find?_eq_some hroute) hpol rfl rfl
  | none =>
  have hexh : (R.fallback estimatedUsage).exhausted ctx = R.base.exhausted ctx := rfl
  rw [hexh]
  cases R.base.exhausted ctx with
  | true => simp
  | false =>
  simp only [Bool.false_eq_true, if_false, true_and, true_implies]
  cases hsplit : explicitModel.bind splitExplicit with
  | some named =>
    obtain ⟨provider, model⟩ := named
    obtain ⟨explicit, rfl, hsplit⟩ := Option.bind_eq_some_iff.mp hsplit
    constructor
    · intro hwithin
      constructor
      · rintro _ ⟨⟩ provider model hsame given hgiven rfl
        cases hsplit.symm.trans hsame
        have hpair := hwithin _ h ⟨decision given.toFallbackRoute "explicit-provider" (some model),
          by simp only [route_of_mem hgiven], rfl⟩
        rw [within_explain hbudget hgiven rfl] at hpair
        use hpair.1.symm, hpair.2
      · rintro _ ⟨⟩ hnone
        cases hsplit.symm.trans hnone
    rintro hkeeps d h' ⟨inner, hinner, rfl⟩
    cases hroute : (R.fallback estimatedUsage).route provider with
    | none => simp [hroute] at hinner
    | some route =>
    simp only [hroute] at hinner
    cases hinner
    have hprov := find?_some hroute
    have hmem := mem_of_find?_eq_some hroute
    obtain ⟨given, hgiven, rfl⟩ := mem_chain.mp hmem
    obtain ⟨hmodel, haff⟩ := hkeeps.named _ rfl _ _ hsplit given hgiven (of_decide_eq_true hprov)
    apply within_of_affordable hmem haff rfl hmodel.symm
  | none =>
  constructor
  · intro hwithin
    constructor
    · rintro explicit rfl provider model hsome
      cases hsplit.symm.trans hsome
    rintro explicit rfl - route hroute
    rw [← availableRoute_fst] at hroute
    obtain ⟨⟨route, h'⟩, havail, rfl⟩ := Option.map_eq_some_iff.mp hroute
    obtain ⟨given, hgiven, rfl⟩ := mem_chain.mp (of_availableIn havail).1
    have hpair := hwithin _ h' ⟨_, by rw [havail], rfl⟩
    rw [within_explain hbudget hgiven rfl] at hpair
    apply hpair.1.symm
  rintro hkeeps d h' ⟨inner, hinner, rfl⟩
  cases havail : (R.fallback estimatedUsage).availableRoute ctx none now h with
  | none => simp [havail] at hinner
  | some result =>
  obtain ⟨route, opened⟩ := result
  simp only [havail] at hinner
  cases hinner
  obtain ⟨hmem, hpol⟩ := of_availableIn havail
  apply within_of_affordable hmem hpol rfl
  cases explicitModel with
  | none => rfl
  | some explicit =>
  symm
  apply hkeeps.bare explicit rfl hsplit
  rw [← availableRoute_fst, havail]
  rfl

variable (R ctx estimatedUsage explicitModel now later h)

/-- After any failures, what is decided on at an error, or after the wait for a retry, is within the
budget, and a first decision is exactly if what is asked for explicitly keeps within it. -/
theorem within_iff :
  ((∀ d h', R.pick ctx estimatedUsage explicitModel now h = .ok (d, h') →
      R.Within ctx estimatedUsage d) ↔
    (R.Asks ctx estimatedUsage explicitModel → R.Keeps ctx estimatedUsage explicitModel now h)) ∧
  (∀ error d h', R.onError error ctx estimatedUsage now later h = .ok (h', .decided d) →
    R.Within ctx estimatedUsage d) ∧
  ∀ error retry d h', R.afterWait error ctx estimatedUsage retry h = (h', some d) →
    R.Within ctx estimatedUsage d
  := by
  use pick_iff
  constructor
  · intro error d h' herror
    rw [onError] at herror
    split at herror
    · cases herror
    split at herror
    · cases herror
    · rename_i hdecided
      cases herror
      obtain ⟨route, hroute, hpol, rfl⟩ := of_onError hdecided
      apply within_of_affordable hroute hpol rfl rfl
    · cases herror
  intro error retry d h' hwait
  rw [afterWait, FallbackRouter.afterWait] at hwait
  cases hroute : (R.fallback estimatedUsage).route error.provider with
  | none => simp [hroute] at hwait
  | some route =>
  simp only [hroute] at hwait
  split_ifs at hwait with hpol
  · have hnone : none = some d := congrArg Prod.snd hwait
    cases hnone
  have hdec : some (R.explain ctx estimatedUsage _) = some d := congrArg Prod.snd hwait
  cases hdec
  rw [Bool.not_eq_true', Bool.not_eq_false] at hpol
  apply within_of_affordable (mem_of_find?_eq_some hroute) hpol rfl rfl

/-! ### A route that costs too much -/

/-- The routes `a/m`, which costs a dollar for a million tokens, and `b/n`, which costs ten. -/
def dear : List CostAwareRoute :=
  [⟨⟨"a", "m", 1⟩, ⟨1, 1⟩⟩, ⟨⟨"b", "n", 0⟩, ⟨10, 10⟩⟩]

def dearRouter : CostAwareRouter where
  routes := dear
  defaultEstimatedUsage := none
  base := {
    chain := FallbackRouter.sortChain (dear.map CostAwareRoute.toFallbackRoute)
    cooldownMs := 60000
    maxAttempts := 6
    maxRetries := 2
    routePolicy := fun _ _ => true
    nonempty := by decide
    distinct := by decide }
  chain := rfl

/-- A session of which nothing has been spent, with a budget of two dollars. -/
def twoDollars : RouterContext where
  session := ⟨"s", 0, none, none⟩
  turnId := "t"
  attemptCount := 0
  budget := some ⟨some 2, none⟩
  elapsedTimeMs := none
  aborted := false

/-- A million tokens of `b/n`, asked for explicitly, cost ten dollars of two. -/
theorem not_within :
  create dear ⟨none, none, none, none⟩ none = .ok dearRouter ∧
    ∃ d h', dearRouter.pick twoDollars (some ⟨1000000, 0⟩) (some "b/n") 0 Health.initial =
      .ok (d, h') ∧ ¬dearRouter.Within twoDollars (some ⟨1000000, 0⟩) d
  := by
  use rfl
  have hpick : ((dearRouter.pick twoDollars (some ⟨1000000, 0⟩) (some "b/n") 0
      Health.initial).toOption.map fun result => result.1.provider) = some "b" := by
    decide +kernel
  cases h : dearRouter.pick twoDollars (some ⟨1000000, 0⟩) (some "b/n") 0 Health.initial with
  | error =>
    rw [h] at hpick
    cases hpick
  | ok result =>
  rw [h] at hpick
  use result.1, result.2, rfl
  rintro ⟨route, hroute, hprov, -, -, hcost⟩
  obtain ⟨usage, husage, hle⟩ := hcost 2 rfl
  cases husage
  rcases mem_pair.mp hroute with rfl | rfl
  · have hb := hprov.symm.trans (Option.some.inj hpick)
    apply absurd hb
    decide
  · norm_num [projectedCost, twoDollars] at hle

end CostAwareRouter

end Router
