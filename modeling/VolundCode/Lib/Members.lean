import Mathlib.Data.List.Basic

/-!
# Members of objects

An object as the list of its members in the order of their creation: a member that is there keeps
its place when it is given a value (`get_put`), and a member that is erased is gone (`get_erase`).
-/

namespace Members

open List

universe u v

variable {K : Type u} {V : Type v} [DecidableEq K]

/-- The value of a member. -/
def get (ms : List (K × V)) (k : K) : Option V :=
  match ms with
  | [] => none
  | m :: ms => if m.1 = k then some m.2 else get ms k

/-- The members after one is given a value. -/
def put (ms : List (K × V)) (k : K) (v : V) : List (K × V) :=
  match ms with
  | [] => [(k, v)]
  | m :: ms => if m.1 = k then (k, v) :: ms else m :: put ms k v

/-- The members without those of a key. -/
def erase (ms : List (K × V)) (k : K) : List (K × V) :=
  ms.filter fun m => m.1 ≠ k

variable {k : K} {ms : List (K × V)}

theorem mem_of_get {v : V} (h : get ms k = some v) :
  (k, v) ∈ ms
  := by
  induction ms with
  | nil => cases h
  | cons m ms ih =>
  rw [get] at h
  split_ifs at h with hkey
  · cases h
    rw [← hkey]
    apply mem_cons_self
  · apply mem_cons_of_mem _ (ih h)

theorem get_put {l : K} {v : V} :
  get (put ms k v) l = if k = l then some v else get ms l
  := by
  induction ms with
  | nil => rfl
  | cons m ms ih =>
  rw [put]
  by_cases hkey : m.1 = k
  · rw [if_pos hkey, get, get]
    by_cases hl : k = l
    · rw [if_pos hl, if_pos hl]
    · rw [if_neg hl, if_neg hl, if_neg (hkey ▸ hl)]
  rw [if_neg hkey, get, get, ih]
  by_cases hl : m.1 = l
  · rw [if_pos hl, if_pos hl, if_neg (hl ▸ Ne.symm hkey)]
  · rw [if_neg hl, if_neg hl]

theorem get_erase {l : K} :
  get (erase ms k) l = if k = l then none else get ms l
  := by
  induction ms with
  | nil => simp [erase, get]
  | cons m ms ih =>
  rw [erase] at ih ⊢
  by_cases hkey : m.1 = k
  · rw [filter_cons_of_neg (by simpa using hkey), ih, get]
    by_cases hl : k = l
    · rw [if_pos hl, if_pos hl]
    · rw [if_neg hl, if_neg hl, if_neg (hkey ▸ hl)]
  rw [filter_cons_of_pos (by simpa using hkey), get, ih, get]
  by_cases hl : m.1 = l
  · rw [if_pos hl, if_pos hl, if_neg (hl ▸ Ne.symm hkey)]
  · rw [if_neg hl, if_neg hl]

/-- A member after one is given a value: it is this one, or it was there. -/
theorem mem_put {v : V} {m : K × V} (h : m ∈ put ms k v) :
  m = (k, v) ∨ m ∈ ms
  := by
  induction ms with
  | nil => exact Or.inl (mem_singleton.mp h)
  | cons n ms ih =>
  rw [put] at h
  split_ifs at h
  · rcases mem_cons.mp h with h | h
    · exact Or.inl h
    · exact Or.inr (mem_cons_of_mem n h)
  rcases mem_cons.mp h with rfl | h
  · exact Or.inr mem_cons_self
  · rcases ih h with h | h
    · exact Or.inl h
    · exact Or.inr (mem_cons_of_mem n h)

end Members
