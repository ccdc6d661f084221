import VolundCode.Lib.Numeric
import VolundCode.Subagent.Dispatcher

/-!
# Budgets as the model gives them

The input of the `Task` tool is JSON from a model. `validate` looks at its own members only, so that
`#resolveBudget` gets any value in place of a number, compares it as ECMAScript does and passes it
on to `exhaustedBudget`. An override tightens the default budget if and only if it is refused or
what it gives are numbers (`overridesTighten_iff`): a value that is not comparable takes the limit
away.
-/

namespace Subagent.BudgetValues

open Js

/-! ### The input of a tool -/

/-- The schema of the input of a tool, as far as it is looked at. -/
structure ObjectSchema where
  properties : List String
  required : List String
  additionalProperties : Bool

/-- The properties every object has. -/
def objectProperties : List String :=
  ["constructor", "__defineGetter__", "__defineSetter__", "hasOwnProperty", "__lookupGetter__",
    "__lookupSetter__", "isPrototypeOf", "propertyIsEnumerable", "toString", "valueOf",
    "__proto__", "toLocaleString"]

/-- `validate`: what is wrong with the input of a tool. -/
def validate (schema : ObjectSchema) : Json → Option String
  | .obj ms =>
    match schema.required.find? fun key =>
      !((Json.member ms key).isSome || objectProperties.contains key) with
    | some key => some ("missing required property: " ++ key)
    | none =>
      if schema.additionalProperties then none
      else
        (ms.find? fun m => !(schema.properties.contains m.1)).map fun m =>
          "unknown property: " ++ m.1
  | _ => some "input must be an object"

/-- The schema of the `Task` tool. -/
def taskSchema : ObjectSchema where
  properties := ["prompt", "agentType", "budget"]
  required := ["prompt"]
  additionalProperties := false

/-! ### Budgets -/

/-- The property of a dimension. -/
def key : BudgetDimension → String
  | .tokenMax => "tokenMax"
  | .costUSDMax => "costUSDMax"
  | .timeMsMax => "timeMsMax"
  | .toolCallMax => "toolCallMax"

/-- The default budget: numbers, for the dimensions that have one. -/
abbrev Defaults := BudgetDimension → Option Number

/-- A value of a budget: given in the input, or taken from the default. -/
inductive BudgetValue where
  | given (v : Json)
  | inherited (n : Number)

/-- The budget of a child. -/
abbrev ChildBudget := BudgetDimension → Option BudgetValue

/-- Why a budget is refused: a dimension exceeds the default, or it cannot be compared at all. -/
inductive Refusal where
  | exceedsDefault (dimension : BudgetDimension) (requested : Json) (ceiling : Number)
  | thrown (what : Thrown)

/-- `input[dimension]`. -/
def requested (input : Value) (d : BudgetDimension) : Value :=
  maybe input (key d)

/-- The default of a dimension, if there are defaults and it has one. -/
def ceiling (defaults : Option Defaults) (d : BudgetDimension) : Option Number :=
  defaults.bind fun defaults => defaults d

variable (round : ℚ → Extended)

/-- The check of the dimensions: none that is given exceeds its default. -/
def checkBudget (defaults : Defaults) (input : Value) : List BudgetDimension → Except Refusal Unit
  | [] => .ok ()
  | d :: ds =>
    match requested input d, defaults d with
    | some v, some ceiling =>
      match toNumber round v with
      | .error what => .error (.thrown what)
      | .ok n =>
        if greater n ceiling then .error (.exceedsDefault d v ceiling)
        else checkBudget defaults input ds
    | _, _ => checkBudget defaults input ds

/-- The check of an input, if there are defaults. -/
def checkDefaults (defaults : Option Defaults) (input : Value) : Except Refusal Unit :=
  match defaults with
  | some defaults => checkBudget round defaults input budgetDimensions
  | none => .ok ()

/-- `input[dimension] ?? defaults?.[dimension]`. -/
def mergedValue (defaults : Option Defaults) (input : Value) (d : BudgetDimension) :
    Option BudgetValue :=
  match requested input d with
  | none | some .null => (ceiling defaults d).map .inherited
  | some v => some (.given v)

/-- The default budget as the budget of a child. -/
def inheritedBudget (defaults : Option Defaults) : ChildBudget :=
  fun d => (ceiling defaults d).map .inherited

/-- `#resolveBudget` for the value of `budget` in the input. -/
def resolveBudget (defaults : Option Defaults) (input : Value) : Except Refusal ChildBudget :=
  if truthy input then
    (checkDefaults round defaults input).map fun _ => mergedValue defaults input
  else .ok (inheritedBudget defaults)

/-- The number that a value of a budget is taken for in a comparison. -/
def BudgetValue.toNumber : BudgetValue → Except Thrown Number
  | .given v => Js.toNumber round v
  | .inherited n => .ok n

/-- The number that a value of a budget is, if it is one. -/
def BudgetValue.number : BudgetValue → Option Number
  | .given (.num d) => some (some (round d.toRat))
  | .given _ => none
  | .inherited n => some n

/-- The first of the dimensions whose limit is reached. -/
def firstExhausted (budget : ChildBudget) (spent : BudgetDimension → Number) :
    List BudgetDimension → Except Thrown (Option BudgetDimension)
  | [] => .ok none
  | d :: ds =>
    match budget d with
    | none => firstExhausted budget spent ds
    | some v =>
      match v.toNumber round with
      | .error what => .error what
      | .ok limit =>
        if reaches (spent d) limit then .ok (some d) else firstExhausted budget spent ds

/-- `exhaustedBudget`: the first dimension of the budget that is used up by the tokens, the cost,
the time and the tool calls that have been spent. -/
def exhaustedBudget (budget : ChildBudget) (spent : BudgetDimension → Number) :
    Except Thrown (Option BudgetDimension) :=
  firstExhausted round budget spent budgetDimensions

/-! ### Overrides that tighten -/

/-- The budget of a child is tightened: it has numbers, none of them larger than its default, for
all dimensions that have one, and stops the child no later than the default does. -/
structure Tightened (defaults : Option Defaults) (budget : ChildBudget) : Prop where
  number : ∀ d v, budget d = some v → ∃ n, v.number round = some n ∧
    ∀ c, ceiling defaults d = some c → greater n c = false
  kept : ∀ d c, ceiling defaults d = some c → budget d ≠ none
  stops : ∀ spent d, exhaustedBudget round (inheritedBudget defaults) spent = .ok (some d) →
    ∃ d', exhaustedBudget round budget spent = .ok (some d')

/-- An input that is accepted gets a budget that is tightened, if it gets one. -/
def OverridesTighten (defaults : Option Defaults) (input : Json) : Prop :=
  validate taskSchema input = none → ∀ budget,
    resolveBudget round defaults (maybe (some input) "budget") = .ok budget →
    Tightened round defaults budget

/-- What is given for a dimension exceeds its default, or cannot be compared with it. -/
def Exceeds (defaults : Option Defaults) (input : Value) (d : BudgetDimension) : Prop :=
  ∃ v c, requested input d = some v ∧ ceiling defaults d = some c ∧
    ∀ n, Js.toNumber round v = .ok n → greater n c

/-- What is given is a number, for all dimensions. -/
def Numeric (input : Value) : Prop :=
  ∀ d v, requested input d = some v → v = .null ∨ ∃ x, v = .num x

variable {round : ℚ → Extended} {defaults : Option Defaults} {input : Value} {budget : ChildBudget}

/-! ### What is resolved -/

theorem mem_budgetDimensions (d : BudgetDimension) :
  d ∈ budgetDimensions
  := by
  cases d
  all_goals simp [budgetDimensions]

/-- Nothing is given in what does not count as true. -/
theorem requested_of_falsy (h : truthy input = false) (d : BudgetDimension) :
  requested input d = none
  := by
  match input with
  | none | some .null | some (.bool _) | some (.num _) | some (.str _) | some (.arr _) => rfl
  | some (.obj _) => cases h

/-- The dimensions pass if and only if none of them exceeds its default. -/
theorem checkBudget_eq_ok {defaults : Defaults} {ds : List BudgetDimension} :
  checkBudget round defaults input ds = .ok () ↔ ∀ d ∈ ds, ¬ Exceeds round (some defaults) input d
  := by
  induction ds with
  | nil => simp [checkBudget]
  | cons d ds ih =>
  rw [List.forall_mem_cons, ← ih, checkBudget]
  cases hv : requested input d with
  | none =>
    have hexc : ¬ Exceeds round (some defaults) input d := by
      rintro ⟨v, c, hv', -⟩
      rw [hv] at hv'
      cases hv'
    simp [hexc]
  | some v =>
  cases hc : defaults d with
  | none =>
    have hexc : ¬ Exceeds round (some defaults) input d := by
      rintro ⟨v, c, -, hc', -⟩
      rw [ceiling, Option.bind_some, hc] at hc'
      cases hc'
    simp [hexc]
  | some c =>
  have hexc : Exceeds round (some defaults) input d ↔
      ∀ n, Js.toNumber round v = .ok n → greater n c := by
    constructor
    · rintro ⟨v', c', hv', hc', h⟩
      rw [hv] at hv'
      rw [ceiling, Option.bind_some, hc] at hc'
      cases hv'
      cases hc'
      apply h
    · intro h
      use v, c, hv, hc
  rw [hexc]
  dsimp only
  cases hn : Js.toNumber round v with
  | error what => simp
  | ok n =>
    dsimp only
    split_ifs with hgreater
    all_goals simp [hgreater]

/-- A budget is resolved if and only if no dimension exceeds its default, and then what is given is
put in place of the default. -/
theorem resolveBudget_eq_ok :
  resolveBudget round defaults input = .ok budget ↔
    (∀ d, ¬ Exceeds round defaults input d) ∧ mergedValue defaults input = budget
  := by
  have hnone (h : ∀ d, requested input d = none) :
      (∀ d, ¬ Exceeds round defaults input d) ∧
        mergedValue defaults input = inheritedBudget defaults := by
    constructor
    · rintro d ⟨v, c, hv, -⟩
      rw [h] at hv
      cases hv
    · funext d
      rw [mergedValue, h, inheritedBudget]
  rw [resolveBudget]
  split_ifs with htruthy
  · cases defaults with
    | none =>
      have hexc : ∀ d, ¬ Exceeds round none input d := by
        rintro d ⟨v, c, -, hc, -⟩
        cases hc
      constructor
      · intro h
        cases h
        use hexc
      · rintro ⟨-, rfl⟩
        rfl
    | some defaults =>
      rw [checkDefaults]
      cases hcheck : checkBudget round defaults input budgetDimensions with
      | error e =>
        constructor
        · intro h
          cases h
        · rintro ⟨h, -⟩
          rw [checkBudget_eq_ok.mpr fun d _ => h d] at hcheck
          cases hcheck
      | ok u =>
      have hexc := checkBudget_eq_ok.mp hcheck
      constructor
      · intro h
        cases h
        exact ⟨fun d => hexc d (mem_budgetDimensions d), rfl⟩
      · rintro ⟨-, rfl⟩
        rfl
  obtain ⟨hexc, hmerged⟩ := hnone (requested_of_falsy (eq_false_of_ne_true htruthy))
  rw [hmerged, Except.ok.injEq]
  constructor
  · intro h
    use hexc
  · rintro ⟨-, h⟩
    apply h

/-! ### When a budget is exhausted -/

theorem toNumber_of_number {v : BudgetValue} {n : Number} (h : v.number round = some n) :
  v.toNumber round = .ok n
  := by
  match v with
  | .given (.num _) | .inherited _ =>
    cases h
    rfl
  | .given .null | .given (.bool _) | .given (.str _) | .given (.arr _) | .given (.obj _) => cases h

variable {d : BudgetDimension}

/-- The dimension whose limit is reached has one. -/
theorem exists_of_firstExhausted {spent : BudgetDimension → Number}
    {ds : List BudgetDimension} (h : firstExhausted round budget spent ds = .ok (some d)) :
  ∃ v n, budget d = some v ∧ v.toNumber round = .ok n ∧ reaches (spent d) n
  := by
  induction ds with
  | nil => cases h
  | cons d' ds ih =>
  rw [firstExhausted] at h
  cases hv : budget d' with
  | none =>
    rw [hv] at h
    apply ih h
  | some v =>
  rw [hv] at h
  dsimp only at h
  cases hn : v.toNumber round with
  | error what =>
    rw [hn] at h
    cases h
  | ok n =>
  rw [hn] at h
  dsimp only at h
  split_ifs at h with hreach
  · cases h
    use v, n
  · apply ih h

/-- A budget of numbers is exhausted where one of its limits is reached. -/
theorem firstExhausted_of_reaches {spent : BudgetDimension → Number}
    {ds : List BudgetDimension} {v : BudgetValue} {n : Number}
    (hnum : ∀ d v, budget d = some v → ∃ n, v.number round = some n) (hd : d ∈ ds)
    (hv : budget d = some v) (hn : v.number round = some n) (h : reaches (spent d) n) :
  ∃ d', firstExhausted round budget spent ds = .ok (some d')
  := by
  induction ds with
  | nil => cases hd
  | cons d' ds ih =>
  rw [firstExhausted]
  rcases List.mem_cons.mp hd with rfl | hd
  · rw [hv]
    dsimp only
    rw [toNumber_of_number hn]
    dsimp only
    rw [if_pos h]
    use d
  cases hv' : budget d' with
  | none => apply ih hd
  | some v' =>
  obtain ⟨n', hn'⟩ := hnum d' v' hv'
  dsimp only
  rw [toNumber_of_number hn']
  dsimp only
  split_ifs with hreach
  · use d'
  · apply ih hd

/-! ### Overrides of numbers -/

/-- A value of the merged budget is taken from the default or is given, and then not null. -/
theorem mergedValue_cases {v : BudgetValue} (h : mergedValue defaults input d = some v) :
  (∃ c, ceiling defaults d = some c ∧ v = .inherited c) ∨
    ∃ x, requested input d = some x ∧ x ≠ .null ∧ v = .given x
  := by
  rw [mergedValue] at h
  split at h
  · rename_i hv
    obtain ⟨c, hc, rfl⟩ := Option.map_eq_some_iff.mp h
    left
    use c
  · rename_i hv
    obtain ⟨c, hc, rfl⟩ := Option.map_eq_some_iff.mp h
    left
    use c
  rename_i x hnull hv
  right
  use x, hv
  constructor
  · rintro rfl
    apply hnull rfl
  · exact (Option.some.inj h).symm

/-- What is given and not null is a value of the merged budget. -/
theorem mergedValue_of_requested {x : Json} (hx : requested input d = some x) (hnull : x ≠ .null) :
  mergedValue defaults input d = some (.given x)
  := by
  rw [mergedValue, hx]
  cases x with
  | null => exact absurd rfl hnull
  | bool _ | num _ | str _ | arr _ | obj _ => rfl

/-- What is merged of numbers that do not exceed their defaults is tightened. -/
theorem tightened_of_numeric (hexc : ∀ d, ¬ Exceeds round defaults input d)
    (hnumeric : Numeric input) :
  Tightened round defaults (mergedValue defaults input)
  := by
  have hvalue : ∀ d v, mergedValue defaults input d = some v →
      (∃ c, ceiling defaults d = some c ∧ v = .inherited c) ∨
        ∃ x, requested input d = some (.num x) ∧ v = .given (.num x) := by
    intro d v hv
    rcases mergedValue_cases hv with h | ⟨x, hx, hnull, rfl⟩
    · exact Or.inl h
    right
    rcases hnumeric d x hx with h | ⟨x, rfl⟩
    · exact absurd h hnull
    · use x
  have hnum : ∀ d v, mergedValue defaults input d = some v → ∃ n, v.number round = some n ∧
      ∀ c, ceiling defaults d = some c → greater n c = false := by
    intro d v hv
    rcases hvalue d v hv with ⟨c, hc, rfl⟩ | ⟨x, hx, rfl⟩
    · use c, rfl
      intro c' hc'
      obtain rfl := Option.some.inj (hc.symm.trans hc')
      cases c with
      | none => rfl
      | some c => exact decide_eq_false (lt_irrefl c)
    use some (round x.toRat), rfl
    intro c hc
    apply eq_false_of_ne_true
    intro hgreater
    apply hexc d
    use .num x, c, hx, hc
    intro n hn
    cases hn
    apply hgreater
  have hkept : ∀ d c, ceiling defaults d = some c → mergedValue defaults input d ≠ none := by
    intro d c hc hnone
    cases hx : requested input d with
    | none =>
      rw [mergedValue, hx, hc] at hnone
      cases hnone
    | some x =>
    by_cases hnull : x = .null
    · rw [mergedValue, hx, hnull, hc] at hnone
      cases hnone
    · rw [mergedValue_of_requested hx hnull] at hnone
      cases hnone
  use hnum, hkept
  intro spent d h
  obtain ⟨v, n, hv, hn, hreach⟩ := exists_of_firstExhausted h
  obtain ⟨c, hc, rfl⟩ := Option.map_eq_some_iff.mp hv
  obtain rfl := Except.ok.inj hn
  obtain ⟨w, hw⟩ := Option.ne_none_iff_exists'.mp (hkept d c hc)
  obtain ⟨m, hm, hle⟩ := hnum d w hw
  apply firstExhausted_of_reaches (fun d v hv => (hnum d v hv).imp fun _ h => h.1)
    (mem_budgetDimensions d) hw hm
  rcases hvalue d w hw with ⟨c', hc', rfl⟩ | ⟨x, -, rfl⟩
  · obtain rfl := Option.some.inj (hc.symm.trans hc')
    obtain rfl := Option.some.inj hm
    apply hreach
  apply reaches_of_not_greater hreach
  · intro hnone
    rw [hnone] at hm
    cases hm
  · apply hle c hc

/-- What is merged is tightened only if what is given are numbers. -/
theorem numeric_of_tightened (h : Tightened round defaults (mergedValue defaults input)) :
  Numeric input
  := by
  intro d x hx
  by_cases hnull : x = .null
  · exact Or.inl hnull
  right
  obtain ⟨n, hn, -⟩ := h.number d _ (mergedValue_of_requested hx hnull)
  match x with
  | .num x => use x
  | .null | .bool _ | .str _ | .arr _ | .obj _ => cases hn

/-- An input that is accepted has its budget tightened, if it gets one, if and only if the budget it
gives exceeds the default or what it gives are numbers. -/
theorem overridesTighten_iff (round : ℚ → Extended) (defaults : Option Defaults) (input : Json) :
  OverridesTighten round defaults input ↔ (validate taskSchema input = none →
      (∃ d, Exceeds round defaults (maybe (some input) "budget") d) ∨
        Numeric (maybe (some input) "budget"))
  := by
  constructor
  · intro h hvalid
    by_cases hexc : ∃ d, Exceeds round defaults (maybe (some input) "budget") d
    · exact Or.inl hexc
    right
    apply numeric_of_tightened
    apply h hvalid
    exact resolveBudget_eq_ok.mpr ⟨not_exists.mp hexc, rfl⟩
  intro h hvalid budget hresolve
  obtain ⟨hexc, rfl⟩ := resolveBudget_eq_ok.mp hresolve
  rcases h hvalid with hexists | hnumeric
  · exact absurd hexists (not_exists.mpr hexc)
  · apply tightened_of_numeric hexc hnumeric

/-- A text that is no number takes the limit away. -/
theorem not_overridesTighten :
  ¬ ∀ round defaults input, OverridesTighten round defaults input
  := by
  intro h
  let defaults : Defaults := fun _ => some ((200000 : ℚ) : WithTop ℚ)
  have hresolve : resolveBudget (fun q => (q : WithTop ℚ)) (some defaults)
      (some (.obj [("tokenMax", .str "unlimited")])) =
      .ok (mergedValue (some defaults) (some (.obj [("tokenMax", .str "unlimited")]))) := rfl
  have htightened := h (fun q => (q : WithTop ℚ)) (some defaults)
    (.obj [("prompt", .str "go on"), ("budget", .obj [("tokenMax", .str "unlimited")])]) rfl _
    hresolve
  obtain ⟨n, hn, -⟩ := htightened.number .tokenMax (.given (.str "unlimited")) rfl
  cases hn

end Subagent.BudgetValues
