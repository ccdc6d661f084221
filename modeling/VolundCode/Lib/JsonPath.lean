import VolundCode.Lib.Json
import Mathlib.Data.List.Basic

/-!
# Paths in JSON objects

A path leads through the objects of a value to what is found at its end. Setting a path makes the
objects on its way, in the place of whatever stands there. What is found at a path after another
has been set depends only on what was found there before (`lookup_setAt`), and not even on that
unless one of the paths is a prefix of the other.

In a series of settings the last one that touches a path decides whether there is anything
(`isSome_apply`): one at or below the path gives it a value, one above takes it away.
-/

namespace Json

open List Option

abbrev Path : Type := List String

/-- The members of an object, none of anything else. -/
def table : Option Json → List (String × Json)
  | some (.obj ms) => ms
  | _ => []

/-- What is found at the end of a path through objects. -/
def lookup : Path → Json → Option Json
  | [], v => some v
  | p :: ps, .obj ms => (member ms p).bind (lookup ps)
  | _ :: _, _ => none

/-- The members after a path has been set, with an object for every step of it. -/
def setAt : Path → Json → List (String × Json) → List (String × Json)
  | [], _, ms => ms
  | [p], v, ms => setMember ms p v
  | p :: q :: ps, v, ms => setMember ms p (.obj (setAt (q :: ps) v (table (member ms p))))

def isObject : Json → Bool
  | .obj _ => true
  | _ => false

/-- What is found at a path after another has been set, if `x` was found there before. -/
def effect : Path → Path → Json → Option Json → Option Json
  | [], [], v, _ => some v
  | [], q :: qs, v, x => some (.obj (setAt (q :: qs) v (table x)))
  | p :: ps, [], v, _ => lookup (p :: ps) v
  | p :: ps, q :: qs, v, x => if p = q then effect ps qs v x else x

variable {v : Json}

theorem member_setMember {ms : List (String × Json)} {k l : String} :
  member (setMember ms k v) l = if k = l then some v else member ms l
  := by
  induction ms with
  | nil => rw [setMember, member_cons]
  | cons m ms ih =>
  obtain ⟨k', w⟩ := m
  rw [setMember]
  by_cases hsame : k' = k
  · rw [if_pos hsame, member_cons, member_cons, hsame]
    by_cases hkey : k = l
    · rw [if_pos hkey, if_pos hkey]
    · rw [if_neg hkey, if_neg hkey, if_neg hkey]
  rw [if_neg hsame]
  split_ifs with hfirst hkey hkey
  · rw [member_cons, if_pos hkey]
  · rw [member_cons, if_neg hkey]
  · rw [member_cons, ih, if_pos hkey, if_neg (by rw [← hkey]; exact hsame)]
  · rw [member_cons, member_cons, ih, if_neg hkey]

theorem mem_setMember {ms : List (String × Json)} {k : String} {m : String × Json}
    (h : m ∈ setMember ms k v) :
  m = (k, v) ∨ m ∈ ms
  := by
  induction ms with
  | nil =>
    left
    apply mem_singleton.mp h
  | cons m' ms ih =>
  obtain ⟨k', w⟩ := m'
  rw [setMember] at h
  split_ifs at h with hsame hfirst
  · rcases mem_cons.mp h with rfl | h
    · left
      rw [hsame]
    · right
      apply mem_cons_of_mem _ h
  · rcases mem_cons.mp h with rfl | h
    · left
      rfl
    · right
      apply h
  rcases mem_cons.mp h with rfl | h
  · right
    apply mem_cons_self
  rcases ih h with rfl | h
  · left
    rfl
  · right
    apply mem_cons_of_mem _ h

/-! ### Lookups after settings -/

variable {k : Path}

theorem lookup_nil_object (hk : k ≠ []) :
  lookup k (.obj []) = none
  := by
  cases k with
  | nil => exact absurd rfl hk
  | cons p ps => rfl

/-- There is nothing inside of what is no object. -/
theorem lookup_of_leaf (hk : k ≠ []) (hv : v.isObject = false) :
  lookup k v = none
  := by
  cases k with
  | nil => exact absurd rfl hk
  | cons p ps =>
    cases v with
    | obj ms => cases hv
    | null | bool | num | str | arr => rfl

variable {x : Option Json} {q : Path}

/-- What is no object is looked through, and set through, as an empty one. -/
theorem effect_table (hq : q ≠ []) :
  effect k q v (lookup k (.obj (table x))) = effect k q v (x.bind (lookup k))
  := by
  obtain ⟨r, qs, rfl⟩ := exists_cons_of_ne_nil hq
  cases k with
  | nil | cons p ps =>
  cases x with
  | none => rfl
  | some y =>
    cases y with
    | obj ms | null | bool | num | str | arr => rfl

/-- What is found at a path after a path has been set. -/
theorem lookup_setAt (hq : q ≠ []) (k : Path) (v : Json) (ms : List (String × Json)) :
  lookup k (.obj (setAt q v ms)) = effect k q v (lookup k (.obj ms))
  := by
  induction q generalizing k ms with
  | nil => exact absurd rfl hq
  | cons r qs ih =>
  cases k with
  | nil => rfl
  | cons p ps =>
  rw [effect, lookup]
  cases qs with
  | nil =>
    rw [setAt, member_setMember]
    by_cases hp : p = r
    · rw [if_pos hp.symm, if_pos hp]
      cases ps with
      | nil | cons p' ps => rfl
    · rw [if_neg (Ne.symm hp), if_neg hp]
      rfl
  | cons r' qs =>
  rw [setAt, member_setMember]
  by_cases hp : p = r
  · rw [if_pos hp.symm, if_pos hp, bind_some, ih (cons_ne_nil _ _),
      effect_table (cons_ne_nil _ _), hp]
    rfl
  · rw [if_neg (Ne.symm hp), if_neg hp]
    rfl

/-! ### Series of settings -/

/-- What setting a path does to another: at or below it, it gives it a value, above it, it takes
its value away. -/
inductive Touch where
  | gives
  | takes
  deriving DecidableEq, Repr

/-- What setting the path `q` does to the path `k`, if one is a prefix of the other. -/
def touch : Path → Path → Option Touch
  | [], _ => some .gives
  | _ :: _, [] => some .takes
  | p :: ps, q :: qs => if p = q then touch ps qs else none

/-- What the last of the paths that touches `k` does to it. -/
def lastTouch (k : Path) (qs : List Path) : Option Touch :=
  qs.foldl (fun last q => (touch k q).or last) none

/-- What is found at a path after a series of settings. -/
def apply (k : Path) (x : Option Json) (qs : List (Path × Json)) : Option Json :=
  qs.foldl (fun x q => effect k q.1 q.2 x) x

theorem touch_eq_gives_iff :
  touch k q = some .gives ↔ k <+: q
  := by
  induction k generalizing q with
  | nil => simp [touch]
  | cons p ps ih =>
  cases q with
  | nil => simp [touch]
  | cons r qs =>
  rw [touch, cons_prefix_cons]
  by_cases h : p = r
  · rw [if_pos h, ih, and_iff_right h]
  · simp [h]

theorem touch_eq_takes_iff :
  touch k q = some .takes ↔ q <+: k ∧ q ≠ k
  := by
  induction k generalizing q with
  | nil => simp [touch]
  | cons p ps ih =>
  cases q with
  | nil => simp [touch]
  | cons r qs =>
  rw [touch, cons_prefix_cons]
  by_cases h : p = r
  · rw [if_pos h, ih, and_iff_right h.symm, h]
    simp
  · simp [h, Ne.symm h]

theorem effect_of_touch_none (h : touch k q = none) :
  effect k q v x = x
  := by
  induction k generalizing q with
  | nil => cases h
  | cons p ps ih =>
  cases q with
  | nil => cases h
  | cons r qs =>
  rw [touch] at h
  rw [effect]
  split_ifs at h ⊢
  · apply ih h
  · rfl

theorem isSome_effect_of_gives
    (h : touch k q = some .gives) :
  (effect k q v x).isSome
  := by
  induction k generalizing q with
  | nil =>
    cases q with
    | nil | cons r qs => rfl
  | cons p ps ih =>
  cases q with
  | nil => cases h
  | cons r qs =>
  rw [touch] at h
  rw [effect]
  split_ifs at h ⊢
  apply ih h

theorem effect_of_takes (hv : v.isObject = false) (h : touch k q = some .takes) :
  effect k q v x = none
  := by
  induction k generalizing q with
  | nil => cases h
  | cons p ps ih =>
  cases q with
  | nil => exact lookup_of_leaf (cons_ne_nil _ _) hv
  | cons r qs =>
  rw [touch] at h
  rw [effect]
  split_ifs at h ⊢
  apply ih h

section Series

variable {k : Path} {x : Option Json}

theorem lastTouch_append_one (qs : List Path) (q : Path) :
  lastTouch k (qs ++ [q]) = (touch k q).or (lastTouch k qs)
  := by
  rw [lastTouch, foldl_append]
  rfl

theorem lastTouch_append (qs rs : List Path) :
  lastTouch k (qs ++ rs) = (lastTouch k rs).or (lastTouch k qs)
  := by
  induction rs using List.reverseRecOn with
  | nil => rw [append_nil, lastTouch, lastTouch, foldl_nil, none_or]
  | append_singleton rs r ih =>
    rw [← append_assoc, lastTouch_append_one, lastTouch_append_one, ih, Option.or_assoc]

theorem apply_append (qs rs : List (Path × Json)) :
  apply k x (qs ++ rs) = apply k (apply k x qs) rs
  := foldl_append

variable {qs : List (Path × Json)}

/-- The last path that touches another decides whether there is anything. -/
theorem isSome_apply (hleaf : ∀ q ∈ qs, q.2.isObject = false) :
  (apply k x qs).isSome =
    match lastTouch k (qs.map Prod.fst) with
    | none => x.isSome
    | some .gives => true
    | some .takes => false
  := by
  induction qs using List.reverseRecOn with
  | nil => rfl
  | append_singleton qs q ih =>
  have hqs : ∀ q ∈ qs, q.2.isObject = false := fun q hq =>
    hleaf q (mem_append_left _ hq)
  have hq : q.2.isObject = false := hleaf q (mem_append_right _ mem_cons_self)
  rw [apply_append, map_append, map_singleton, lastTouch_append_one]
  change (effect k q.1 q.2 (apply k x qs)).isSome = _
  cases htouch : touch k q.1 with
  | none =>
    rw [effect_of_touch_none htouch, ih hqs]
    rfl
  | some t =>
  cases t with
  | gives =>
    rw [isSome_effect_of_gives htouch]
    rfl
  | takes =>
    rw [effect_of_takes hq htouch]
    rfl

/-- Where nothing was found, nothing is found unless the last path that touches gives a value. -/
theorem apply_none_of_lastTouch_ne
    (hleaf : ∀ q ∈ qs, q.2.isObject = false) (h : lastTouch k (qs.map Prod.fst) ≠ some .gives) :
  apply k none qs = none
  := by
  rw [← isSome_eq_false_iff.trans isNone_iff_eq_none, isSome_apply hleaf]
  cases hlast : lastTouch k (qs.map Prod.fst) with
  | none => rfl
  | some t =>
    cases t with
    | gives => exact absurd hlast h
    | takes => rfl

theorem lastTouch_append_ne {qs rs : List Path} (hqs : lastTouch k qs ≠ some .gives)
    (hrs : lastTouch k rs ≠ some .gives) :
  lastTouch k (qs ++ rs) ≠ some .gives
  := by
  rw [lastTouch_append]
  cases hlast : lastTouch k rs with
  | none =>
    rw [none_or]
    apply hqs
  | some t =>
    rw [some_or, ← hlast]
    apply hrs

/-- A path that is not touched has what it had. -/
theorem apply_of_lastTouch_none
    (h : lastTouch k (qs.map Prod.fst) = none) :
  apply k x qs = x
  := by
  induction qs using List.reverseRecOn with
  | nil => rfl
  | append_singleton qs q ih =>
    rw [map_append, map_singleton, lastTouch_append_one, or_eq_none_iff] at h
    rw [apply_append, ih h.2]
    apply effect_of_touch_none h.1

theorem lookup_foldl_setAt (hqs : ∀ q ∈ qs, q.1 ≠ []) (ms : List (String × Json)) :
  lookup k (.obj (qs.foldl (fun ms q => setAt q.1 q.2 ms) ms)) = apply k (lookup k (.obj ms)) qs
  := by
  induction qs generalizing ms with
  | nil => rfl
  | cons q qs ih =>
    rw [foldl_cons, ih fun q hq => hqs q (mem_cons_of_mem _ hq), lookup_setAt (hqs q mem_cons_self)]
    rfl

/-- What is found at or below a path that is set does not depend on what was found before. -/
theorem effect_below (h : q <+: k) (x y : Option Json) :
  effect k q v x = effect k q v y
  := by
  induction k generalizing q with
  | nil =>
    obtain rfl := prefix_nil.mp h
    rfl
  | cons p ps ih =>
  cases q with
  | nil => rfl
  | cons r qs =>
  obtain ⟨rfl, htail⟩ := cons_prefix_cons.mp h
  rw [effect, effect, if_pos rfl, if_pos rfl]
  apply ih htail

theorem apply_below {qs : List (Path × Json)} {q : Path × Json} (hq : q ∈ qs) (h : q.1 <+: k)
    (x y : Option Json) :
  apply k x qs = apply k y qs
  := by
  obtain ⟨past, rest, rfl⟩ := append_of_mem hq
  rw [apply_append, apply_append]
  exact congrArg (fun x => apply k x rest) (effect_below h _ _)

end Series

end Json
