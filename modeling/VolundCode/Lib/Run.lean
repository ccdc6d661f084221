import Mathlib.Algebra.Group.Basic
import Mathlib.Data.List.Basic

/-!
# Runs of partial step functions

A system is a partial step function: the state an action leads to, or `none` when the
action cannot happen in the state. A run is a list of actions. The invariant rules
reduce a property of every state a run reaches to one step, for all runs
(`run_invariant`), for the runs whose steps meet a side condition
(`Guarded.invariant`), and for properties that also speak of the actions taken so far
(`Guarded.invariant_history`) or of what they weigh in all (`run_total`).
-/

universe u v

namespace Run

open List

variable {σ : Type u} {α : Type v}

/-- The state a run leads to from `s`, if each of its actions can happen in turn. -/
def run (step : σ → α → Option σ) : σ → List α → Option σ
  | s, [] => some s
  | s, a :: as =>
    match step s a with
    | none => none
    | some t => run step t as

/-- Every action of the run meets the condition `ok` in the state in which it happens. -/
def Guarded (step : σ → α → Option σ) (ok : σ → α → Prop) : σ → List α → Prop
  | _, [] => True
  | s, a :: as =>
    ok s a ∧
      match step s a with
      | none => True
      | some t => Guarded step ok t as

instance Guarded.decidable (step : σ → α → Option σ) (ok : σ → α → Prop)
    [∀ s a, Decidable (ok s a)] : ∀ s as, Decidable (Guarded step ok s as)
  | _, [] => isTrue True.intro
  | s, a :: as =>
    haveI : Decidable (match step s a with | none => True | some t => Guarded step ok t as) :=
      match step s a with
      | none => isTrue True.intro
      | some t => Guarded.decidable step ok t as
    inferInstanceAs (Decidable (_ ∧ _))

variable {step : σ → α → Option σ} {ok : σ → α → Prop}

/-- A run of one action followed by others is the action followed by the run of the
others. -/
theorem run_cons_eq_some {s t : σ} {a : α} {as : List α} :
  run step s (a :: as) = some t ↔ ∃ u, step s a = some u ∧ run step u as = some t
  := by
  cases h : step s a with
  | none | some u => simp [run, h]

/-- A run of two lists of actions is the run of the first followed by the run of the
second. -/
theorem run_append {s : σ} (as bs : List α) :
  run step s (as ++ bs) = (run step s as).bind fun t => run step t bs
  := by
  induction as generalizing s with
  | nil => rfl
  | cons a as ih =>
    cases h : step s a with
    | none => simp [run, h]
    | some u => simp [run, h, ih]

/-- Past an action that can happen, the rest of the run meets the condition too. -/
theorem Guarded.tail {s t : σ} {a : α} {as : List α} (h : Guarded step ok s (a :: as))
    (ht : step s a = some t) :
  Guarded step ok t as
  := by
  have hrest := h.2
  rw [ht] at hrest
  apply hrest

/-- The condition `fun _ _ => True` holds along every run. -/
theorem Guarded.trivial (s : σ) (as : List α) :
  Guarded step (fun _ _ => True) s as
  := by
  induction as generalizing s with
  | nil => exact True.intro
  | cons a as ih =>
  use True.intro
  cases step s a with
  | none => exact True.intro
  | some t => apply ih

/-- The steps of a run meet the condition when it is met wherever an action of the run happens. -/
theorem guarded_iff {s : σ} {as : List α} :
  Guarded step ok s as ↔ ∀ past a rest t, as = past ++ a :: rest → run step s past = some t → ok t a
  := by
  induction as generalizing s with
  | nil =>
    constructor
    · intro _ past a rest t h
      apply absurd h.symm
      simp
    · intro _
      exact True.intro
  | cons b as ih =>
  constructor
  · intro h past a rest t has hrun
    cases past with
    | nil =>
      obtain ⟨rfl, -⟩ := List.cons.inj has
      cases hrun
      apply h.1
    | cons c past =>
      obtain ⟨rfl, htail⟩ := List.cons.inj has
      obtain ⟨u, hu, hrest⟩ := run_cons_eq_some.mp hrun
      apply ih.mp (h.tail hu) past a rest t htail hrest
  intro h
  use h [] b as s rfl rfl
  cases hb : step s b with
  | none => exact True.intro
  | some u =>
  apply ih.mpr
  intro past a rest t has hrun
  apply h (b :: past) a rest t (congrArg (b :: ·) has)
  rw [run_cons_eq_some]
  use u, hb

section Invariants

/-- A property of states and of the actions taken so far, which every step meeting `ok`
preserves, holds at the end of a run whose steps meet `ok`, if it holds after the actions
`past` where the run starts. -/
theorem Guarded.invariant_after
    {I : List α → σ → Prop}
    (hstep : ∀ past s a t, I past s → ok s a → step s a = some t → I (past ++ [a]) t)
    (past : List α) {as : List α} {s t : σ} (hs : I past s) (hok : Guarded step ok s as)
    (hrun : run step s as = some t) :
  I (past ++ as) t
  := by
  induction as generalizing past s with
  | nil =>
    cases hrun
    rw [append_nil]
    apply hs
  | cons a as ih =>
    obtain ⟨u, hu, hrest⟩ := run_cons_eq_some.mp hrun
    rw [append_cons]
    apply ih _ (hstep past s a u hs hok.1 hu) (hok.tail hu) hrest

/-- A property of states and of the actions taken so far, which every step meeting `ok`
preserves, holds at the end of every run whose steps meet `ok`. -/
theorem Guarded.invariant_history
    {I : List α → σ → Prop}
    (hstep : ∀ past s a t, I past s → ok s a → step s a = some t → I (past ++ [a]) t)
    {as : List α} {s t : σ} (hs : I [] s) (hok : Guarded step ok s as)
    (hrun : run step s as = some t) :
  I as t
  := Guarded.invariant_after hstep [] hs hok hrun

/-- A property of states which every step meeting `ok` preserves holds at the end of
every run whose steps meet `ok`. -/
theorem Guarded.invariant
    {I : σ → Prop} (hstep : ∀ s a t, I s → ok s a → step s a = some t → I t)
    {as : List α} {s t : σ} (hs : I s) (hok : Guarded step ok s as)
    (hrun : run step s as = some t) :
  I t
  := Guarded.invariant_history (I := fun _ => I) (fun _ => hstep) hs hok hrun

/-- A condition that steps meet in the states of an invariant, if they meet `ok`, is met along the
runs whose steps meet `ok`. -/
theorem Guarded.imp
    {I : σ → Prop} {ok' : σ → α → Prop} (hstep : ∀ s a t, I s → ok s a → step s a = some t → I t)
    (himp : ∀ s a, I s → ok s a → ok' s a) {as : List α} {s : σ} (hs : I s)
    (hok : Guarded step ok s as) :
  Guarded step ok' s as
  := by
  induction as generalizing s with
  | nil => exact True.intro
  | cons a as ih =>
  use himp s a hs hok.1
  cases h : step s a with
  | none => exact True.intro
  | some t => exact ih (hstep s a t hs hok.1 h) (hok.tail h)

/-- A property of states which every step preserves holds at the end of every run. -/
theorem run_invariant
    {I : σ → Prop} (hstep : ∀ s a t, I s → step s a = some t → I t)
    {as : List α} {s t : σ} (hs : I s) (hrun : run step s as = some t) :
  I t
  := Guarded.invariant (fun s a t h _ => hstep s a t h) hs (Guarded.trivial s as) hrun

end Invariants

section Total

variable (f : σ → α → σ)

/-- A run of a system in which every action can happen. -/
theorem run_some (s : σ) (as : List α) :
  run (fun s a => some (f s a)) s as = some (as.foldl f s)
  := by
  induction as generalizing s with
  | nil => rfl
  | cons a as ih => exact ih (f s a)

/-- The steps of a run in which every action can happen meet a condition when it is met wherever an
action is taken. -/
theorem guarded_some_iff {s : σ} {as : List α} :
  Guarded (fun s a => some (f s a)) ok s as ↔
    ∀ past a rest, as = past ++ a :: rest → ok (past.foldl f s) a
  := by
  rw [guarded_iff]
  constructor
  · intro h past a rest has
    exact h past a rest _ has (run_some f s past)
  · intro h past a rest t has ht
    obtain rfl := Option.some.inj ((run_some f s past).symm.trans ht)
    exact h past a rest has

end Total

section Since

/-- Along a list something has happened, of which `p` tells from what came before it, and everything
that has come since meets `q`. -/
def Since (p : List α → α → Prop) (q : α → Prop) (as : List α) : Prop :=
  ∃ past a rest, as = past ++ a :: rest ∧ p past a ∧ ∀ b ∈ rest, q b

variable {p : List α → α → Prop} {q : α → Prop}

/-- In an empty list nothing has happened. -/
theorem not_since_nil :
  ¬ Since p q []
  := by
  rintro ⟨past, a, rest, has, -⟩
  simp at has

/-- It is the last that happens, or it has happened before and the last meets `q`. -/
theorem since_concat {as : List α} {a : α} :
  Since p q (as ++ [a]) ↔ p as a ∨ Since p q as ∧ q a
  := by
  constructor
  · rintro ⟨past, b, rest, has, hb, hrest⟩
    rcases eq_nil_or_concat rest with rfl | ⟨rest, c, rfl⟩
    · obtain ⟨rfl, ⟨⟩⟩ := append_inj' has rfl
      exact .inl hb
    rw [concat_eq_append, ← cons_append, ← append_assoc] at has
    obtain ⟨rfl, ⟨⟩⟩ := append_inj' has rfl
    apply Or.inr
    constructor
    · exact ⟨past, b, rest, rfl, hb, fun d hd => hrest d (by simp [hd])⟩
    · exact hrest a (by simp)
  rintro (ha | ⟨⟨past, b, rest, rfl, hb, hrest⟩, ha⟩)
  · exact ⟨as, a, [], rfl, ha, by simp⟩
  refine ⟨past, b, rest ++ [a], by simp, hb, ?_⟩
  intro c hc
  rcases mem_append.mp hc with hc | hc
  · exact hrest c hc
  · obtain rfl := mem_singleton.mp hc
    exact ha

end Since

section Totals

variable {M : Type*} [AddMonoid M]

/-- What the actions of a run weigh in all, each in the state in which it happens. -/
def total (step : σ → α → Option σ) (weight : σ → α → M) : σ → List α → M
  | _, [] => 0
  | s, a :: as =>
    weight s a +
      match step s a with
      | none => 0
      | some t => total step weight t as

/-- A property of weights and states, which every step preserves while it adds its weight, holds
of what the actions of a run weigh at the end of it, after the weight `m` where it starts. -/
theorem run_total_after {weight : σ → α → M} {I : M → σ → Prop}
    (hstep : ∀ m s a t, I m s → step s a = some t → I (m + weight s a) t) (m : M)
    {as : List α} {s t : σ} (hs : I m s) (hrun : run step s as = some t) :
  I (m + total step weight s as) t
  := by
  induction as generalizing m s with
  | nil =>
    cases hrun
    rw [total, add_zero]
    apply hs
  | cons a as ih =>
  obtain ⟨u, hu, hrest⟩ := run_cons_eq_some.mp hrun
  have hu' := ih (m + weight s a) (hstep m s a u hs hu) hrest
  rw [total, hu, ← add_assoc]
  apply hu'

/-- A property of weights and states, which every step preserves while it adds its weight, holds
of what the actions of a run weigh at the end of it. -/
theorem run_total {weight : σ → α → M} {I : M → σ → Prop}
    (hstep : ∀ m s a t, I m s → step s a = some t → I (m + weight s a) t)
    {as : List α} {s t : σ} (hs : I 0 s) (hrun : run step s as = some t) :
  I (total step weight s as) t
  := by
  have h := run_total_after hstep 0 hs hrun
  rw [zero_add] at h
  apply h

end Totals

end Run
