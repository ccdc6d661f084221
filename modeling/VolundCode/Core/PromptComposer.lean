import Mathlib.Algebra.Order.Ring.Int
import Mathlib.Data.List.Lex
import VolundCode.Lib.Run

/-!
# The prompt composer

The prompt is put together from fragments, those whose condition holds, by descending priority and
then by id. What has been composed for a context is kept until a fragment is registered, one is
disposed of, or the composer is invalidated; these are the changes.

The conditions and the texts of the fragments may be functions that take a while. `compose` walks
through the fragments, waits for each condition, and goes on with what is registered after the
fragment it has waited for; then it waits for the texts. Every step of the model is what happens
without waiting, so that changes and other calls may fall between any two steps of a call.

A prompt that is returned should be composed since the last change, of exactly the fragments that
are registered (`Fresh`), and to dispose of a handle should remove its fragment only (`Right`). This
is so along the runs in which no call ends that was overtaken by a change, and no handle is disposed
of whose id is in use by another one (`Undisturbed`), and along no others (`composes_iff`): the
text of such a call is kept after the change.
-/

namespace Core.PromptComposer

open Run List

/-! ### Fragments and texts -/

structure PromptContext where
  cwd : String
  model : String
  provider : String
  platform : Option String
  arch : Option String
  shell : Option String
deriving DecidableEq

/-- The text of a fragment, or that it is computed. -/
inductive FragmentText where
  | text (value : String)
  | computed
deriving DecidableEq

/-- A fragment of the prompt, which may have a condition. -/
structure PromptFragment where
  id : String
  source : String
  priority : ℤ
  hasWhen : Bool
  text : FragmentText
deriving DecidableEq

/-- The machine on which the program runs. -/
structure Process where
  platform : String
  arch : String

/-- What the places of a text are replaced with. -/
def placeholders (process : Process) (context : PromptContext) : List (String × String) :=
  [("cwd", context.cwd), ("model", context.model), ("provider", context.provider),
    ("platform", context.platform.getD process.platform),
    ("arch", context.arch.getD process.arch), ("shell", context.shell.getD "unknown")]

/-- The text with its places replaced, where `skip` characters have already been read. -/
def renderFrom (values : List (String × String)) : ℕ → List Char → List Char
  | _, [] => []
  | skip + 1, _ :: text => renderFrom values skip text
  | 0, c :: text =>
    match values.find? fun value =>
      ("\x7b\x7b" ++ value.1 ++ "\x7d\x7d").toList.isPrefixOf (c :: text) with
    | some (key, value) => value.toList ++ renderFrom values (key.length + 3) text
    | none => c :: renderFrom values 0 text

def render (process : Process) (context : PromptContext) (text : String) : String :=
  String.ofList (renderFrom (placeholders process context) 0 text.toList)

/-! ### The composer -/

/-- A fragment that is registered, with the number of its handle. -/
structure Registered where
  handle : ℕ
  fragment : PromptFragment
deriving DecidableEq

/-- A prompt, with what it was composed of: the conditions that were asked, the texts, and the
number of changes before. -/
structure Composed where
  since : ℕ
  asked : List (Registered × Bool)
  parts : List (Registered × String)
  text : String

/-- Where a call of `compose` is: it waits for a condition, for the texts, or it has ended. -/
inductive Stage where
  | asking (r : Registered)
  | texting (enabled : List Registered)
  | settled

structure Call where
  context : PromptContext
  since : ℕ
  asked : List (Registered × Bool)
  stage : Stage

/-- The composer, with the fragments of the handles it has given, and the number of changes. -/
structure State where
  fragments : List Registered
  issued : List PromptFragment
  cache : PromptContext → Option Composed
  calls : List Call
  changes : ℕ

def start : State where
  fragments := []
  issued := []
  cache _ := none
  calls := []
  changes := 0

inductive Action where
  | register (fragment : PromptFragment)
  | dispose (handle : ℕ)
  | invalidate
  | compose (context : PromptContext)
  | answer (call : ℕ) (holds : Bool)
  | finish (call : ℕ) (answers : ℕ → String)
  | reject (call : ℕ)

variable {Key : Type} [LinearOrder Key] (collate : String → Key) (process : Process)

/-- The order of the fragments: by descending priority, and then by id in the order of
`localeCompare`, which is that of the sort keys. -/
def precedes (a b : Registered) : Bool :=
  decide (b.fragment.priority < a.fragment.priority) ||
    decide (a.fragment.priority = b.fragment.priority) &&
      decide (collate a.fragment.id ≤ collate b.fragment.id)

/-- The fragments whose condition holds. -/
def enabledOf (asked : List (Registered × Bool)) : List Registered :=
  (asked.filter Prod.snd).map Prod.fst

/-- A call goes on up to the next condition. -/
def proceed (asked : List (Registered × Bool)) : List Registered → List (Registered × Bool) × Stage
  | [] => (asked, .texting ((enabledOf asked).mergeSort (precedes collate)))
  | r :: rest =>
    if r.fragment.hasWhen then (asked, .asking r) else proceed (asked ++ [(r, true)]) rest

/-- The text of a fragment, with the answer of a function. -/
def textOf (answers : ℕ → String) (r : Registered) : String :=
  match r.fragment.text with
  | .text value => value
  | .computed => answers r.handle

/-- The prompt of some texts. -/
def promptOf (context : PromptContext) (parts : List (Registered × String)) : String :=
  "\n\n---\n\n".intercalate <| parts.map fun part =>
    s!"<!-- source: {part.1.fragment.source}, priority: {part.1.fragment.priority} -->\n" ++
      render process context part.2

/-- What a call composes. -/
def Call.composed (call : Call) (enabled : List Registered) (answers : ℕ → String) : Composed :=
  let parts := enabled.map fun r => (r, textOf answers r)
  { since := call.since, asked := call.asked, parts, text := promptOf process call.context parts }

/-- `invalidate`. -/
def State.invalidate (s : State) : State :=
  { s with cache := fun _ => none, changes := s.changes + 1 }

def State.register (s : State) (fragment : PromptFragment) : State :=
  if s.fragments.any fun r => r.fragment.id = fragment.id then s
  else
    State.invalidate { s with
      fragments := s.fragments ++ [{ handle := s.issued.length, fragment }]
      issued := s.issued ++ [fragment] }

/-- `dispose`, of the handle of a fragment. -/
def State.dispose (s : State) (fragment : PromptFragment) : State :=
  State.invalidate { s with
    fragments := s.fragments.filter fun r => r.fragment.id ≠ fragment.id }

/-- A call begins, if the prompt is not in the cache. -/
def State.compose (s : State) (context : PromptContext) : State :=
  match s.cache context with
  | some _ => s
  | none =>
    let (asked, stage) := proceed collate [] s.fragments
    { s with calls := s.calls ++ [{ context, since := s.changes, asked, stage }] }

/-- A call ends, and its prompt is kept. -/
def State.finish (s : State) (i : ℕ) (call : Call) (composed : Composed) : State :=
  { s with
    cache := Function.update s.cache call.context (some composed)
    calls := s.calls.set i { call with stage := .settled } }

def step (s : State) : Action → Option State
  | .register fragment => some (s.register fragment)
  | .dispose handle => s.issued[handle]?.map s.dispose
  | .invalidate => some s.invalidate
  | .compose context => some (s.compose collate context)
  | .answer i holds =>
    match s.calls[i]? with
    | some { context, since, asked, stage := .asking r } =>
      let (asked, stage) := proceed collate (asked ++ [(r, holds)])
        (s.fragments.filter fun q => r.handle < q.handle)
      some { s with calls := s.calls.set i { context, since, asked, stage } }
    | _ => none
  | .finish i answers =>
    match s.calls[i]? with
    | some { context, since, asked, stage := .texting enabled } =>
      let call : Call := { context, since, asked, stage := .texting enabled }
      some (s.finish i call (call.composed process enabled answers))
    | _ => none
  | .reject i =>
    match s.calls[i]? with
    | some { stage := .settled, .. } => none
    | some call => some { s with calls := s.calls.set i { call with stage := .settled } }
    | none => none

/-- What an action returns: the context, the number of changes before the call began, and the
prompt. -/
def State.returned (s : State) : Action → Option (PromptContext × ℕ × Composed)
  | .compose context => (s.cache context).map fun composed => (context, s.changes, composed)
  | .finish i answers =>
    match s.calls[i]? with
    | some { context, since, asked, stage := .texting enabled } =>
      let call : Call := { context, since, asked, stage := .texting enabled }
      some (context, since, call.composed process enabled answers)
    | _ => none
  | _ => none

/-! ### What should be returned -/

/-- The prompt is composed of exactly the fragments that are registered and whose condition holds,
in their order. -/
structure Fresh (fragments : List Registered) (context : PromptContext) (c : Composed) : Prop where
  asked : c.asked.map Prod.fst = fragments
  unconditional : ∀ a ∈ c.asked, a.1.fragment.hasWhen = false → a.2
  parts : (c.parts.map Prod.fst).Perm (enabledOf c.asked)
  sorted : (c.parts.map Prod.fst).Pairwise fun a b => precedes collate a b
  values : ∀ part ∈ c.parts, ∀ value, part.1.fragment.text = .text value → part.2 = value
  text : c.text = promptOf process context c.parts

/-- A call that began after the last change returns what is composed since then of the fragments
that are registered, and to dispose of a handle removes its fragment only. -/
structure Right (s : State) (a : Action) : Prop where
  returns : ∀ context c, s.returned process a = some (context, s.changes, c) →
    c.since = s.changes ∧ Fresh collate process s.fragments context c
  disposes : ∀ handle t, a = .dispose handle → step collate process s a = some t →
    t.fragments = s.fragments.filter fun r => r.handle ≠ handle

/-- The step is right, and every call that begins after it is. -/
def Sound (s : State) (a : Action) : Prop :=
  Right collate process s a ∧ ∀ t, step collate process s a = some t →
    ∀ context, Right collate process t (.compose context)

/-- The call waits for texts. -/
def Call.isTexting (call : Call) : Bool :=
  match call.stage with
  | .texting _ => true
  | _ => false

/-- No call ends that was overtaken by a change, and no handle is disposed of whose id another one
has. -/
def Undisturbed (s : State) : Action → Prop
  | .dispose handle => ∀ fragment ∈ s.issued[handle]?, ∀ r ∈ s.fragments,
    r.fragment.id = fragment.id → r.handle = handle
  | .finish i _ => ∀ call ∈ s.calls[i]?, call.isTexting → call.since = s.changes
  | _ => True

@[simp]
theorem cache_finish (s : State) (i : ℕ) (call : Call) (composed : Composed) :
  (s.finish i call composed).cache = Function.update s.cache call.context (some composed)
  := rfl

/-! ### The calls that are not overtaken -/

/-- The fragments without a condition are taken as they are. -/
def Unconditional (asked : List (Registered × Bool)) : Prop :=
  ∀ a ∈ asked, a.1.fragment.hasWhen = false → a.2

/-- A call that began after the last change has asked the fragments in turn. -/
def Along (fragments : List Registered) (asked : List (Registered × Bool)) : Stage → Prop
  | .asking r => Unconditional asked ∧ r.fragment.hasWhen ∧
    ∃ rest, fragments = asked.map Prod.fst ++ r :: rest
  | .texting enabled => Unconditional asked ∧ asked.map Prod.fst = fragments ∧
    enabled = (enabledOf asked).mergeSort (precedes collate)
  | .settled => True

theorem Unconditional.concat {asked : List (Registered × Bool)} (h : Unconditional asked)
    {r : Registered} {holds : Bool} (hr : r.fragment.hasWhen = false → holds) :
  Unconditional (asked ++ [(r, holds)])
  := by
  intro a ha hwhen
  rcases mem_append.mp ha with ha | ha
  · apply h a ha hwhen
  · rw [mem_singleton] at ha
    subst ha
    apply hr hwhen

variable {collate}

theorem along_proceed {asked : List (Registered × Bool)} {fragments rest : List Registered}
    (hasked : Unconditional asked) (h : fragments = asked.map Prod.fst ++ rest) :
  Along collate fragments (proceed collate asked rest).1 (proceed collate asked rest).2
  := by
  induction rest generalizing asked with
  | nil =>
    rw [append_nil] at h
    exact ⟨hasked, h.symm, rfl⟩
  | cons r rest ih =>
  rw [proceed]
  split_ifs with hwhen
  · exact ⟨hasked, hwhen, rest, h⟩
  apply ih
  · apply hasked.concat
    intro _
    rfl
  · rw [h, map_append, append_assoc]
    rfl

/-- What is registered after a fragment. -/
theorem filter_handle_lt {front rest : List Registered} {r : Registered}
    (h : (front ++ r :: rest).Pairwise fun a b => a.handle < b.handle) :
  (front ++ r :: rest).filter (fun q => r.handle < q.handle) = rest
  := by
  obtain ⟨-, hrest, hfront⟩ := pairwise_append.mp h
  rw [pairwise_cons] at hrest
  have hnone : front.filter (fun q => decide (r.handle < q.handle)) = [] := by
    rw [filter_eq_nil_iff]
    intro q hq hlt
    have := hfront q hq r mem_cons_self
    rw [decide_eq_true_eq] at hlt
    omega
  have hall : rest.filter (fun q => decide (r.handle < q.handle)) = rest := by
    rw [filter_eq_self]
    intro q hq
    rw [decide_eq_true_eq]
    apply hrest.1 q hq
  rw [filter_append, hnone, filter_cons_of_neg (by simp), hall, nil_append]

theorem precedes_total (a b : Registered) :
  (precedes collate a b || precedes collate b a) = true
  := by
  simp only [precedes, Bool.or_eq_true, Bool.and_eq_true, decide_eq_true_eq]
  rcases lt_trichotomy a.fragment.priority b.fragment.priority with hlt | heq | hgt
  · exact Or.inr (Or.inl hlt)
  · rcases le_total (collate a.fragment.id) (collate b.fragment.id) with hle | hle
    · exact Or.inl (Or.inr ⟨heq, hle⟩)
    · exact Or.inr (Or.inr ⟨heq.symm, hle⟩)
  · exact Or.inl (Or.inl hgt)

theorem precedes_trans (a b c : Registered) (hab : precedes collate a b)
    (hbc : precedes collate b c) :
  precedes collate a c
  := by
  simp only [precedes, Bool.or_eq_true, Bool.and_eq_true, decide_eq_true_eq] at hab hbc ⊢
  rcases hab with hab | ⟨hab, hab'⟩
  · rcases hbc with hbc | ⟨hbc, -⟩
    all_goals
      left
      omega
  rcases hbc with hbc | ⟨hbc, hbc'⟩
  · left
    omega
  · right
    exact ⟨hab.trans hbc, hab'.trans hbc'⟩

/-- What a call composes that has asked the fragments in turn. -/
theorem fresh_composed {fragments : List Registered} {call : Call} {enabled : List Registered}
    (h : Along collate fragments call.asked (.texting enabled)) (answers : ℕ → String) :
  Fresh collate process fragments call.context (call.composed process enabled answers)
  := by
  obtain ⟨hwhen, hasked, rfl⟩ := h
  have hparts (answers : ℕ → String) (rs : List Registered) :
      (rs.map fun r => (r, textOf answers r)).map Prod.fst = rs := by
    rw [map_map]
    apply map_id
  constructor
  · exact hasked
  · exact hwhen
  · rw [Call.composed, hparts]
    apply mergeSort_perm
  · rw [Call.composed, hparts]
    apply pairwise_mergeSort
    · apply precedes_trans
    · apply precedes_total
  · intro part hpart value hvalue
    obtain ⟨r, -, rfl⟩ := mem_map.mp hpart
    rw [textOf, hvalue]
  · rfl

/-! ### The invariant -/

variable (collate)

/-- What is in the cache is composed since the last change, and the calls that began since then have
asked the fragments in turn. -/
structure Invariant (s : State) : Prop where
  ordered : s.fragments.Pairwise fun a b => a.handle < b.handle
  issued : ∀ r ∈ s.fragments, s.issued[r.handle]? = some r.fragment
  calls : ∀ call ∈ s.calls, call.since ≤ s.changes ∧
    (call.since = s.changes → Along collate s.fragments call.asked call.stage)
  cache : ∀ context c, s.cache context = some c →
    c.since = s.changes ∧ Fresh collate process s.fragments context c

theorem invariant_start :
  Invariant collate process start
  := by
  constructor
  · exact List.Pairwise.nil
  all_goals nofun

variable {collate process}

variable {s : State}

/-- A change. The calls that have begun are overtaken. -/
theorem Invariant.change {t : State} (h : Invariant collate process s)
    (hord : t.fragments.Pairwise fun a b => a.handle < b.handle)
    (hissued : ∀ r ∈ t.fragments, t.issued[r.handle]? = some r.fragment)
    (hcalls : t.calls = s.calls) (hchg : t.changes = s.changes) :
  Invariant collate process t.invalidate
  := by
  constructor
  · exact hord
  · exact hissued
  · intro call hcall
    have hle := (h.calls call (hcalls ▸ hcall)).1
    have hchg' : t.invalidate.changes = s.changes + 1 := congrArg (· + 1) hchg
    rw [hchg']
    constructor
    · omega
    · omega
  · nofun

theorem Invariant.register (h : Invariant collate process s) (fragment : PromptFragment) :
  Invariant collate process (s.register fragment)
  := by
  have hlt (r : Registered) (hr : r ∈ s.fragments) : r.handle < s.issued.length :=
    (List.getElem?_eq_some_iff.mp (h.issued r hr)).1
  rw [State.register]
  split_ifs
  · exact h
  apply h.change
  · rw [pairwise_append]
    refine ⟨h.ordered, pairwise_singleton _ _, ?_⟩
    intro a ha b hb
    rw [mem_singleton.mp hb]
    apply hlt a ha
  · intro r hr
    rcases mem_append.mp hr with hr | hr
    · rw [List.getElem?_append_left (hlt r hr)]
      apply h.issued r hr
    · rw [mem_singleton.mp hr]
      simp
  · rfl
  · rfl

theorem Invariant.dispose (h : Invariant collate process s) (fragment : PromptFragment) :
  Invariant collate process (s.dispose fragment)
  := by
  apply h.change
  · apply h.ordered.filter
  · intro r hr
    apply h.issued r (mem_of_mem_filter hr)
  · rfl
  · rfl

/-- A call takes a step, or begins. -/
theorem Invariant.calling (h : Invariant collate process s) {calls : List Call}
    (hcalls : ∀ call ∈ calls, call ∈ s.calls ∨ call.since ≤ s.changes ∧
      (call.since = s.changes → Along collate s.fragments call.asked call.stage)) :
  Invariant collate process { s with calls }
  := by
  constructor
  · exact h.ordered
  · exact h.issued
  · intro call hcall
    rcases hcalls call hcall with hold | hnew
    · apply h.calls call hold
    · exact hnew
  · exact h.cache

theorem Invariant.compose (h : Invariant collate process s) (context : PromptContext) :
  Invariant collate process (s.compose collate context)
  := by
  rw [State.compose]
  cases s.cache context with
  | some c => exact h
  | none =>
  apply h.calling
  intro call hcall
  rcases mem_append.mp hcall with hold | hnew
  · exact Or.inl hold
  right
  rw [mem_singleton.mp hnew]
  refine ⟨le_rfl, fun _ => ?_⟩
  apply along_proceed
  · intro a ha
    contradiction
  · rfl

/-- A call ends that was not overtaken. -/
theorem Invariant.finish (h : Invariant collate process s) {i : ℕ} {call : Call}
    (hcall : s.calls[i]? = some call) {composed : Composed} (hsince : composed.since = s.changes)
    (hfresh : Fresh collate process s.fragments call.context composed) :
  Invariant collate process (s.finish i call composed)
  := by
  have hcalling : Invariant collate process
      { s with calls := s.calls.set i { call with stage := .settled } } := by
    apply h.calling
    intro call' hmem
    rcases mem_or_eq_of_mem_set hmem with hold | rfl
    · exact Or.inl hold
    · exact Or.inr ⟨(h.calls call (mem_of_getElem? hcall)).1, fun _ => trivial⟩
  constructor
  · exact hcalling.ordered
  · exact hcalling.issued
  · exact hcalling.calls
  intro context c hc
  rw [cache_finish] at hc
  by_cases hctx : context = call.context
  · subst hctx
    rw [Function.update_self] at hc
    cases hc
    exact ⟨hsince, hfresh⟩
  · rw [Function.update_of_ne hctx] at hc
    exact hcalling.cache context c hc

theorem Invariant.step {t : State} {a : Action} (h : Invariant collate process s)
    (hok : Undisturbed s a) (ht : step collate process s a = some t) :
  Invariant collate process t
  := by
  cases a with
  | register fragment =>
    cases ht
    apply h.register
  | dispose handle =>
    obtain ⟨fragment, -, rfl⟩ := Option.map_eq_some_iff.mp ht
    apply h.dispose
  | invalidate =>
    cases ht
    apply h.change h.ordered h.issued rfl rfl
  | compose context =>
    cases ht
    apply h.compose
  | answer i holds =>
    rw [PromptComposer.step] at ht
    split at ht
    · rename_i context since asked r hcall
      cases ht
      obtain ⟨hle, halong⟩ := h.calls _ (mem_of_getElem? hcall)
      apply h.calling
      intro call hmem
      rcases mem_or_eq_of_mem_set hmem with hold | rfl
      · exact Or.inl hold
      right
      refine ⟨hle, fun hsince => ?_⟩
      obtain ⟨hwhen, hr, rest, hrest⟩ := halong hsince
      have hord := h.ordered
      rw [hrest] at hord ⊢
      rw [filter_handle_lt hord]
      apply along_proceed
      · apply hwhen.concat
        rw [hr]
        nofun
      · rw [map_append, append_assoc]
        rfl
    · contradiction
  | finish i answers =>
    rw [PromptComposer.step] at ht
    split at ht
    · rename_i context since asked enabled hcall
      cases ht
      obtain ⟨-, halong⟩ := h.calls _ (mem_of_getElem? hcall)
      have hsince : since = s.changes := hok _ hcall rfl
      apply h.finish hcall hsince
      apply fresh_composed process (halong hsince) answers
    · contradiction
  | reject i =>
  rw [PromptComposer.step] at ht
  split at ht
  · contradiction
  · rename_i call hne hcall
    cases ht
    obtain ⟨hle, -⟩ := h.calls _ (mem_of_getElem? hcall)
    apply h.calling
    intro call' hmem
    rcases mem_or_eq_of_mem_set hmem with hold | rfl
    · exact Or.inl hold
    · exact Or.inr ⟨hle, fun _ => trivial⟩
  · contradiction

/-! ### What is returned -/

theorem Invariant.right {a : Action} (h : Invariant collate process s) (hok : Undisturbed s a) :
  Right collate process s a
  := by
  constructor
  · intro context c hret
    cases a with
    | compose context' =>
      obtain ⟨c', hc, heq⟩ := Option.map_eq_some_iff.mp hret
      cases heq
      apply h.cache context c hc
    | finish i answers =>
      rw [State.returned] at hret
      split at hret
      · rename_i context' since asked enabled hcall
        cases hret
        obtain ⟨-, halong⟩ := h.calls _ (mem_of_getElem? hcall)
        exact ⟨rfl, fresh_composed process (halong rfl) answers⟩
      · contradiction
    | register fragment | dispose handle | invalidate | answer i holds | reject i => contradiction
  rintro handle t rfl ht
  obtain ⟨fragment, hfragment, rfl⟩ := Option.map_eq_some_iff.mp ht
  apply filter_congr
  intro r hr
  rw [decide_eq_decide]
  constructor
  · rintro hid rfl
    have hissued := h.issued r hr
    rw [hfragment] at hissued
    apply hid
    rw [Option.some.inj hissued]
  · intro hhandle hid
    exact hhandle (hok fragment hfragment r hr hid)

/-- A call that ends after a change leaves behind what the next call should not get, and the handle
of a fragment that is not registered any more removes another one. -/
theorem undisturbed_of_sound {a : Action} (h : Sound collate process s a) :
  Undisturbed s a
  := by
  obtain ⟨⟨-, hdisposes⟩, hnext⟩ := h
  cases a with
  | dispose handle =>
    intro fragment hfragment r hr hid
    have ht : step collate process s (.dispose handle) = some (s.dispose fragment) := by
      rw [step, hfragment]
      rfl
    by_contra hne
    have hkept : r ∈ s.fragments.filter fun r => r.handle ≠ handle := by
      rw [mem_filter, decide_eq_true_eq]
      exact ⟨hr, hne⟩
    rw [← hdisposes handle _ rfl ht] at hkept
    obtain ⟨-, hid'⟩ := mem_filter.mp hkept
    exact of_decide_eq_true hid' hid
  | finish i answers =>
    rintro ⟨context, since, asked, stage⟩ hcall htexting
    cases stage with
    | asking r | settled => contradiction
    | texting enabled =>
    let call : Call := { context, since, asked, stage := .texting enabled }
    let composed := call.composed process enabled answers
    have ht : step collate process s (.finish i answers) = some (s.finish i call composed) := by
      rw [step, hcall]
    have hret : (s.finish i call composed).returned process (.compose context) =
        some (context, s.changes, composed) := by
      rw [State.returned, cache_finish, Function.update_self]
      rfl
    exact ((hnext _ ht context).returns context composed hret).1
  | register fragment | invalidate | compose context | answer i holds | reject i => trivial

variable (collate process)

/-- The steps of a run are right, and the calls that begin after them, exactly where no call ends
that was overtaken by a change, and no handle is disposed of whose id another one has. -/
theorem composes_iff (as : List Action) :
  Guarded (step collate process) Undisturbed start as ↔
    Guarded (step collate process) (Sound collate process) start as
  := by
  constructor
  · intro h
    apply h.imp (I := Invariant collate process)
    · intro s a t hs hok ht
      apply hs.step hok ht
    · intro s a hs hok
      use hs.right hok
      intro t ht context
      apply (hs.step hok ht).right
      trivial
    · apply invariant_start
  intro h
  apply h.imp (I := fun _ => True)
  · intro _ _ _ _ _ _
    trivial
  · intro s a _ hsound
    apply undisturbed_of_sound hsound
  · trivial

/-- A fragment without a condition. -/
def exampleFragment (id text : String) : PromptFragment where
  id
  source := "project"
  priority := 600
  hasWhen := false
  text := .text text

def exampleContext : PromptContext where
  cwd := "/repo"
  model := "m"
  provider := "p"
  platform := none
  arch := none
  shell := none

/-- A fragment is registered while a call waits for the texts. -/
def overtaken : List Action :=
  [.register (exampleFragment "a" "A"), .compose exampleContext,
    .register (exampleFragment "b" "B"), .finish 0 fun _ => "", .compose exampleContext]

/-- A handle is disposed of for the second time, when its id has been registered again. -/
def disposedAgain : List Action :=
  [.register (exampleFragment "a" "A"), .dispose 0, .register (exampleFragment "a" "A"), .dispose 0]

/-- The last call of the first run returns the prompt without the second fragment, and the last
action of the second run removes a fragment that another handle registered. -/
theorem not_composes :
  ¬Guarded (step String.length ⟨"linux", "x64"⟩) (Right String.length ⟨"linux", "x64"⟩) start
      overtaken ∧
    ¬Guarded (step String.length ⟨"linux", "x64"⟩) (Right String.length ⟨"linux", "x64"⟩) start
      disposedAgain
  := by
  constructor
  · intro h
    have hright := guarded_iff.mp h overtaken.dropLast (.compose exampleContext) [] _ rfl rfl
    have hsince : 1 = 2 := (hright.returns exampleContext _ rfl).1
    contradiction
  intro h
  have hright := guarded_iff.mp h disposedAgain.dropLast (.dispose 0) [] _ rfl rfl
  have hkept : [] = [Registered.mk 1 (exampleFragment "a" "A")] := hright.disposes 0 _ rfl rfl
  contradiction

end Core.PromptComposer
