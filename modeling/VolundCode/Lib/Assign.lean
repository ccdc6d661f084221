import Mathlib.Data.List.Induction
import Mathlib.Data.List.Nodup
import Mathlib.Logic.Function.Basic

/-!
# Assignments in turn

A function after the elements of a list have been assigned in turn, each under its key. A key has
the value of the last element with this key (`assign_of_last`), which is the only one where the
keys are distinct (`assign_of_mem`).
-/

universe u v w

variable {α : Type u} {κ : Type v} {ν : Type w} [DecidableEq κ]

/-- The function after the elements have been assigned in turn. -/
def assign (key : α → κ) (val : α → ν) (f : κ → ν) (l : List α) : κ → ν :=
  l.foldl (fun f x => Function.update f (key x) (val x)) f

namespace Assign

open List

variable {key : α → κ} {val : α → ν} {f : κ → ν} {l : List α}

@[simp]
theorem assign_nil :
  assign key val f [] = f
  := rfl

@[simp]
theorem assign_cons {x : α} :
  assign key val f (x :: l) = assign key val (Function.update f (key x) (val x)) l
  := rfl

theorem assign_append {l' : List α} :
  assign key val f (l ++ l') = assign key val (assign key val f l) l'
  := foldl_append

/-- What is under no key stays as it is. -/
theorem assign_of_notMem {k : κ} (h : k ∉ l.map key) :
  assign key val f l k = f k
  := by
  induction l generalizing f with
  | nil => rfl
  | cons x l ih =>
    rw [map_cons, mem_cons, not_or] at h
    rw [assign_cons, ih h.2, Function.update_of_ne h.1]

/-- The last element with a key is what is under the key. -/
theorem assign_of_last {l' : List α} {x : α} (h : key x ∉ l'.map key) :
  assign key val f (l ++ x :: l') (key x) = val x
  := by
  rw [assign_append, assign_cons, assign_of_notMem h, Function.update_self]

/-- Where the keys are distinct, each element is what is under its key. -/
theorem assign_of_mem (hnodup : (l.map key).Nodup) {x : α} (hx : x ∈ l) :
  assign key val f l (key x) = val x
  := by
  obtain ⟨l₁, l₂, rfl⟩ := append_of_mem hx
  apply assign_of_last
  rw [map_append, map_cons] at hnodup
  apply (nodup_cons.mp (nodup_append.mp hnodup).2.1).1

/-- A key that occurs is assigned one of its elements. -/
theorem exists_of_mem {k : κ} (hk : k ∈ l.map key) :
  ∃ x ∈ l, key x = k ∧ assign key val f l k = val x
  := by
  induction l using List.reverseRecOn with
  | nil => cases hk
  | append_singleton l x ih =>
  rw [assign_append, assign_cons, assign_nil]
  by_cases hx : key x = k
  · use x, by simp, hx
    rw [← hx, Function.update_self]
  rw [Function.update_of_ne (Ne.symm hx)]
  have hk' : k ∈ l.map key := by
    rw [map_append, mem_append] at hk
    rcases hk with hk | hk
    · exact hk
    · exact absurd (mem_singleton.mp hk).symm hx
  obtain ⟨y, hy, hkey, hval⟩ := ih hk'
  exact ⟨y, mem_append_left _ hy, hkey, hval⟩

end Assign
