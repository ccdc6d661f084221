import VolundCode.Lib.JsonPath

/-!
# The order of members

An object that is made by setting members one after the other has its members in enumeration
order, with distinct keys (`inOrder_assemble`), and setting its members in turn makes it again
(`InOrder.assemble_eq`). So whatever is read is ordered (`parse_ordered`), and stays so when a
path is set (`ordered_setAt`).
-/

namespace Json

open List

/-! ### Keys -/

variable {k : String}

theorem precedes_eq_true_iff {l : String} :
  precedes k l ↔ ∃ m, arrayIndex k = some m ∧ ∀ n, arrayIndex l = some n → m < n
  := by
  rw [precedes]
  cases arrayIndex k with
  | none => simp
  | some m =>
    cases arrayIndex l with
    | none | some n => simp

/-- Whatever stands before a key stands before every later one. -/
theorem precedes_of_not_precedes
    {l m : String} (hk : precedes k l) (hm : precedes m l = false) :
  precedes m k = false
  := by
  by_contra h
  rw [Bool.not_eq_false] at h
  obtain ⟨i, hi, hlt⟩ := precedes_eq_true_iff.mp h
  obtain ⟨j, hj, hlt'⟩ := precedes_eq_true_iff.mp hk
  have hmi : precedes m l := by
    apply precedes_eq_true_iff.mpr
    use i, hi
    intro n hn
    apply lt_trans (hlt j hj) (hlt' n hn)
  rw [hm] at hmi
  cases hmi

theorem not_precedes_of_precedes {l : String} (h : precedes k l) :
  precedes l k = false
  := by
  by_contra hne
  rw [Bool.not_eq_false] at hne
  obtain ⟨i, hi, hlt⟩ := precedes_eq_true_iff.mp h
  obtain ⟨j, hj, hlt'⟩ := precedes_eq_true_iff.mp hne
  exact absurd (hlt j hj) (Nat.lt_asymm (hlt' i hi))

/-! ### Members in enumeration order -/

/-- The first key is another one than the second, which does not have to stand before it. -/
def Before (m m' : String × Json) : Prop :=
  m.1 ≠ m'.1 ∧ precedes m'.1 m.1 = false

/-- The keys are distinct and stand in enumeration order. -/
def InOrder (ms : List (String × Json)) : Prop :=
  ms.Pairwise Before

variable {ms : List (String × Json)}

theorem InOrder.nodup (h : InOrder ms) :
  (ms.map Prod.fst).Nodup
  := pairwise_map.mpr (h.imp And.left)

/-- The order is one of the keys. -/
theorem InOrder.of_keys {ns : List (String × Json)} (h : InOrder ms)
    (hkeys : ms.map Prod.fst = ns.map Prod.fst) :
  InOrder ns
  := by
  have hpair : (ms.map Prod.fst).Pairwise fun k l => k ≠ l ∧ precedes l k = false :=
    pairwise_map.mpr h
  rw [hkeys, pairwise_map] at hpair
  exact hpair

variable {v : Json}

/-- A new key that has to stand before none becomes the last one. -/
theorem setMember_of_last
    (h : ∀ m ∈ ms, Before m (k, v)) :
  setMember ms k v = ms ++ [(k, v)]
  := by
  induction ms with
  | nil => rfl
  | cons m ms ih =>
  have hm := h m mem_cons_self
  rw [setMember, if_neg hm.1, if_neg, ih fun m' hm' => h m' (mem_cons_of_mem m hm'), cons_append]
  rw [hm.2, Bool.false_and]
  exact Bool.false_ne_true

/-- Members in order are made by setting them in turn. -/
theorem InOrder.assemble_eq (h : InOrder ms) :
  assemble ms = ms
  := by
  induction ms using List.reverseRecOn with
  | nil => rfl
  | append_singleton ms m ih =>
  obtain ⟨hms, -, hpre⟩ := pairwise_append.mp h
  rw [assemble, foldl_append, foldl_cons, foldl_nil]
  change setMember (assemble ms) m.1 m.2 = _
  rw [ih hms]
  apply setMember_of_last
  intro m' hm'
  apply hpre m' hm' m (mem_singleton_self m)

/-- Setting a member keeps the order. -/
theorem InOrder.setMember (h : InOrder ms) (k : String) (v : Json) :
  InOrder (setMember ms k v)
  := by
  induction ms with
  | nil => exact pairwise_singleton Before (k, v)
  | cons m ms ih =>
  obtain ⟨l, w⟩ := m
  obtain ⟨hfirst, hms⟩ := pairwise_cons.mp h
  rw [Json.setMember]
  split_ifs with hsame hpre
  · obtain rfl := hsame
    exact pairwise_cons.mpr ⟨fun m hm => hfirst m hm, hms⟩
  · obtain ⟨hprecedes, hnew⟩ := Bool.and_eq_true_iff.mp hpre
    have hnew : ∀ m ∈ ms, k ≠ m.1 := by
      intro m hm heq
      rw [Bool.not_eq_true', any_eq_false] at hnew
      apply hnew m hm
      simp [heq]
    apply pairwise_cons.mpr
    refine ⟨?_, h⟩
    intro m hm
    rcases mem_cons.mp hm with rfl | hm
    · exact ⟨Ne.symm hsame, not_precedes_of_precedes hprecedes⟩
    · exact ⟨hnew m hm, precedes_of_not_precedes hprecedes (hfirst m hm).2⟩
  apply pairwise_cons.mpr
  refine ⟨?_, ih hms⟩
  intro m hm
  rcases mem_setMember hm with rfl | hm
  · use hsame
    rw [Bool.and_eq_true_iff, not_and_or, Bool.not_eq_true] at hpre
    rcases hpre with hprecedes | hnew
    · exact hprecedes
    rw [Bool.not_eq_true', Bool.not_eq_false, any_eq_true] at hnew
    obtain ⟨m, hm, hkey⟩ := hnew
    have hfirst := hfirst m hm
    rw [Before, of_decide_eq_true hkey] at hfirst
    exact hfirst.2
  · exact hfirst m hm

/-- What is made by setting members is in order. -/
theorem inOrder_assemble (ms : List (String × Json)) :
  InOrder (assemble ms)
  := by
  induction ms using List.reverseRecOn with
  | nil => exact List.Pairwise.nil
  | append_singleton ms m ih =>
    rw [assemble, foldl_append, foldl_cons, foldl_nil]
    exact ih.setMember m.1 m.2

theorem assemble_eq_iff :
  assemble ms = ms ↔ InOrder ms
  := by
  constructor
  · intro h
    rw [← h]
    exact inOrder_assemble ms
  · exact InOrder.assemble_eq

/-! ### Ordered values -/

theorem ordered_obj_iff :
  Ordered (.obj ms) ↔ InOrder ms ∧ ∀ m ∈ ms, Ordered m.2
  := by
  rw [Ordered, assemble_eq_iff, orderedMembers_iff]

theorem ordered_arr_iff {xs : List Json} :
  Ordered (.arr xs) ↔ ∀ x ∈ xs, Ordered x
  := by
  rw [Ordered, orderedElements_iff]

/-- An ordered member is set. -/
theorem Ordered.setMember
    (hms : Ordered (.obj ms)) (hv : Ordered v) (k : String) :
  Ordered (.obj (setMember ms k v))
  := by
  obtain ⟨horder, hall⟩ := ordered_obj_iff.mp hms
  apply ordered_obj_iff.mpr
  use horder.setMember k v
  intro m hm
  rcases mem_setMember hm with rfl | hm
  · exact hv
  · exact hall m hm

theorem Ordered.append
    {xs : List Json} {x : Json} (hxs : Ordered (.arr xs)) (hx : Ordered x) :
  Ordered (.arr (xs ++ [x]))
  := by
  rw [ordered_arr_iff] at hxs ⊢
  intro y hy
  rcases mem_append.mp hy with hy | hy
  · exact hxs y hy
  · rw [mem_singleton.mp hy]
    exact hx

theorem ordered_nil :
  Ordered (.obj [])
  := ordered_obj_iff.mpr ⟨List.Pairwise.nil, nofun⟩

/-- What is found as a table is ordered. -/
theorem ordered_table
    (h : Ordered (.obj ms)) (k : String) :
  Ordered (.obj (table (member ms k)))
  := by
  cases hmember : member ms k with
  | none => exact ordered_nil
  | some v =>
  cases v with
  | obj ns =>
    obtain ⟨m, hm, heq⟩ := Option.map_eq_some_iff.mp hmember
    have hv := (ordered_obj_iff.mp h).2 m (mem_of_find?_eq_some hm)
    rw [heq] at hv
    exact hv
  | null | bool | num | str | arr => exact ordered_nil

/-- An ordered value is set at a path. -/
theorem ordered_setAt
    (hms : Ordered (.obj ms)) (hv : Ordered v) (path : Path) :
  Ordered (.obj (setAt path v ms))
  := by
  induction path generalizing ms with
  | nil => exact hms
  | cons p ps ih =>
    cases ps with
    | nil => exact hms.setMember hv p
    | cons q qs => exact hms.setMember (ih (ordered_table hms p)) p

/-- What is found in an ordered value is ordered. -/
theorem ordered_of_lookup
    {x : Json} (h : Ordered v) {path : Path} (hlook : lookup path v = some x) :
  Ordered x
  := by
  induction path generalizing v with
  | nil =>
    cases hlook
    exact h
  | cons p ps ih =>
  cases v with
  | obj ms =>
    obtain ⟨w, hmember, hlook⟩ := Option.bind_eq_some_iff.mp hlook
    obtain ⟨m, hm, rfl⟩ := Option.map_eq_some_iff.mp hmember
    exact ih ((ordered_obj_iff.mp h).2 m (mem_of_find?_eq_some hm)) hlook
  | null | bool | num | str | arr => cases hlook

/-! ### What is read is ordered -/

/-- The values read at a depth are ordered, if those are that have been read before. -/
structure ReadsOrdered (n : ℕ) : Prop where
  value : ∀ s v t, parseValue n s = some (v, t) → Ordered v
  elements : ∀ xs s v t, Ordered (.arr xs) → parseElements n xs s = some (v, t) → Ordered v
  members : ∀ ms s v t, Ordered (.obj ms) → parseMembers n ms s = some (v, t) → Ordered v

variable {s : List Char}

theorem readsOrdered_value {n : ℕ} (h : ReadsOrdered n) {t : List Char}
    (hread : parseValue (n + 1) s = some (v, t)) :
  Ordered v
  := by
  rw [parseValue] at hread
  split at hread
  · obtain ⟨_, _, heq⟩ := Option.map_eq_some_iff.mp hread
    obtain ⟨rfl, -⟩ := Prod.mk.inj heq
    exact True.intro
  · split at hread
    · cases hread
      exact ordered_nil
    · exact h.members _ _ _ _ ordered_nil hread
  · split at hread
    · cases hread
      exact ordered_arr_iff.mpr (forall_mem_nil _)
    · exact h.elements _ _ _ _ (ordered_arr_iff.mpr (forall_mem_nil _)) hread
  · cases hread
    exact True.intro
  · cases hread
    exact True.intro
  · cases hread
    exact True.intro
  · obtain ⟨_, _, heq⟩ := Option.map_eq_some_iff.mp hread
    obtain ⟨rfl, -⟩ := Prod.mk.inj heq
    exact True.intro

theorem readsOrdered_elements {n : ℕ} (h : ReadsOrdered n) {xs : List Json} {t : List Char}
    (hxs : Ordered (.arr xs)) (hread : parseElements (n + 1) xs s = some (v, t)) :
  Ordered v
  := by
  rw [parseElements] at hread
  split at hread
  · cases hread
  rename_i x u hx
  have happ := hxs.append (h.value _ _ _ hx)
  split at hread
  · exact h.elements _ _ _ _ happ hread
  · cases hread
    exact happ
  · cases hread

theorem readsOrdered_members {n : ℕ} (h : ReadsOrdered n) {t : List Char} (hms : Ordered (.obj ms))
    (hread : parseMembers (n + 1) ms s = some (v, t)) :
  Ordered v
  := by
  rw [parseMembers] at hread
  split at hread
  · split at hread
    · cases hread
    rename_i k _ _
    split at hread
    · split at hread
      · cases hread
      rename_i x u hx
      have hset := hms.setMember (h.value _ _ _ hx) k
      split at hread
      · exact h.members _ _ _ _ hset hread
      · cases hread
        exact hset
      · cases hread
    · cases hread
  · cases hread

theorem readsOrdered (n : ℕ) :
  ReadsOrdered n
  := by
  induction n with
  | zero =>
    constructor
    · intro s v t h
      cases h
    · intro xs s v t _ h
      cases h
    · intro ms s v t _ h
      cases h
  | succ n ih =>
  constructor
  · intro s v t
    exact readsOrdered_value ih
  · intro xs s v t
    exact readsOrdered_elements ih
  · intro ms s v t
    exact readsOrdered_members ih

/-- What is read is ordered. -/
theorem parse_ordered (h : parse s = some v) :
  Ordered v
  := by
  rw [parse] at h
  split at h
  · cases h
  rename_i w t hread
  split_ifs at h
  cases h
  exact (readsOrdered _).value _ _ _ hread

end Json
