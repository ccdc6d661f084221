import VolundCode.Lib.Effect

/-!
# Faults

A step on something outside the program, such as a file, has a fate: it is done, it fails and
the program may catch the error, or the process dies there. A computation stops early for one of
the two reasons, and only the first can be caught. The rules compute the weakest precondition of
a step from its fate (`wp_attempt`), and those of the ways to catch an error.
-/

namespace Fault

open Effect

/-- What becomes of a step. -/
inductive Fate where
  | done
  | fails
  | crashes
deriving DecidableEq

/-- Why a computation does not come to its end. -/
inductive Stop where
  | thrown
  | crashed
deriving DecidableEq

variable {σ α : Type}

/-- A step of the given fate, which changes the state only when it is done. -/
def attempt (fate : Fate) (act : σ → σ) : Effect Stop σ Unit :=
  match fate with
  | .done => modify act
  | .fails => throw .thrown
  | .crashes => throw .crashed

/-- A computation followed by another one where it throws. -/
def catching (x handler : Effect Stop σ α) : Effect Stop σ α := fun s =>
  match x s with
  | .ok a t => .ok a t
  | .error .thrown t => handler t
  | .error .crashed t => .error .crashed t

/-- A computation whose error is of no concern. -/
def ignoring (x : Effect Stop σ Unit) : Effect Stop σ Unit :=
  catching x (pure ())

/-- A computation followed by another one, also where it throws. -/
def ensuring (x : Effect Stop σ α) (finalizer : Effect Stop σ Unit) : Effect Stop σ α := do
  let a ← catching x (do finalizer; throw .thrown)
  finalizer
  pure a

variable {Q : α → σ → Prop} {E : Stop → σ → Prop} {s : σ}

@[simp]
theorem wp_attempt {fate : Fate} {act : σ → σ} {Q : Unit → σ → Prop} :
  wp (attempt fate act) Q E s ↔
    match fate with
    | .done => Q () (act s)
    | .fails => E .thrown s
    | .crashes => E .crashed s
  := by
  cases fate with
  | done | fails | crashes => rfl

@[simp]
theorem wp_catching {x handler : Effect Stop σ α} :
  wp (catching x handler) Q E s ↔
    wp x Q (fun e t => match e with | .thrown => wp handler Q E t | .crashed => E .crashed t) s
  := by
  unfold wp catching
  cases x s with
  | ok a t => rfl
  | error e t =>
    cases e with
    | thrown | crashed => rfl

@[simp]
theorem wp_ignoring {x : Effect Stop σ Unit} {Q : Unit → σ → Prop} :
  wp (ignoring x) Q E s ↔
    wp x Q (fun e t => match e with | .thrown => Q () t | .crashed => E .crashed t) s
  := wp_catching

@[simp]
theorem wp_ensuring {x : Effect Stop σ α} {finalizer : Effect Stop σ Unit} :
  wp (ensuring x finalizer) Q E s ↔ wp x (fun a t => wp finalizer (fun _ => Q a) E t)
      (fun e t =>
        match e with
        | .thrown => wp finalizer (fun _ u => E .thrown u) E t
        | .crashed => E .crashed t)
      s
  := by
  rw [ensuring, wp_bind, wp_catching]
  apply Iff.of_eq
  congr 1
  · funext a t
    exact propext wp_bind
  funext e t
  cases e with
  | thrown => exact propext wp_bind
  | crashed => rfl

end Fault
