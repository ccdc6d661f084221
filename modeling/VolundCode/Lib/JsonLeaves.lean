import VolundCode.Lib.JsonPath
import Mathlib.Data.List.Perm.Subperm

/-!
# Trees and their leaves

An object as a tree: what is no object is a leaf. Two trees are the same if there is the same at
every path, up to the order of members. A tree without empty tables is the same as what is made by
setting its leaves in turn (`same_made`). Conversely, if as many settings as there are leaves make
a tree, then they set just the paths of the leaves (`perm_of_same`), and there are no empty tables
(`full_of_same`).
-/

namespace Json

open List Option

/-- What stands at a leaf, nothing for a table. -/
def leaf : Json → Option Json
  | .obj _ => none
  | v => some v

/-- The same tree: at every path there is a table in both, the same leaf, or nothing. -/
def Same (v w : Json) : Prop :=
  ∀ p, (lookup p v).map leaf = (lookup p w).map leaf

/-- No table below the root is empty. -/
def Full (ms : List (String × Json)) : Prop :=
  ∀ p ns, p ≠ [] → lookup p (.obj ms) = some (.obj ns) → ns ≠ []

/-- The leaves of an object, each with its path, once each. -/
structure Leaves (ms : List (String × Json)) (ls : List (Path × Json)) : Prop where
  nodup : (ls.map Prod.fst).Nodup
  mem : ∀ p v, (p, v) ∈ ls ↔ lookup p (.obj ms) = some v ∧ v.isObject = false

/-- What a series of settings makes. -/
def made (qs : List (Path × Json)) : List (String × Json) :=
  qs.foldl (fun ms q => setAt q.1 q.2 ms) []

/-- Settings of leaves. -/
structure Settings (qs : List (Path × Json)) : Prop where
  paths : ∀ q ∈ qs, q.1 ≠ []
  leaves : ∀ q ∈ qs, q.2.isObject = false

variable {v : Json}

theorem leaf_of_not_object (h : v.isObject = false) :
  leaf v = some v
  := by
  cases v with
  | obj ms => cases h
  | null | bool | num | str | arr => rfl

variable {w : Json}

theorem isObject_of_leaf (h : leaf v = some w) :
  v = w ∧ w.isObject = false
  := by
  cases v with
  | obj ms => cases h
  | null | bool | num | str | arr =>
    cases h
    exact ⟨rfl, rfl⟩

theorem exists_of_leaf_eq_none (h : leaf v = none) :
  ∃ ms, v = .obj ms
  := by
  cases v with
  | obj ms => exact ⟨ms, rfl⟩
  | null | bool | num | str | arr => cases h

variable {p : Path}

/-- The same leaf is found at a path of the same tree. -/
theorem Same.leaf {x : Json} (h : Same v w) (hp : lookup p v = some x) (hx : x.isObject = false) :
  lookup p w = some x
  := by
  have hsame := h p
  rw [hp, map_some, leaf_of_not_object hx] at hsame
  obtain ⟨y, hy, hleaf⟩ := map_eq_some_iff.mp hsame.symm
  rw [hy, (isObject_of_leaf hleaf).1]

/-- A table is found at a path of the same tree. -/
theorem Same.table
    {ms : List (String × Json)} (h : Same v w) (hp : lookup p v = some (.obj ms)) :
  ∃ ns, lookup p w = some (.obj ns)
  := by
  have hsame := h p
  rw [hp, map_some] at hsame
  obtain ⟨y, hy, hleaf⟩ := map_eq_some_iff.mp hsame.symm
  obtain ⟨ns, rfl⟩ := exists_of_leaf_eq_none hleaf
  exact ⟨ns, hy⟩

theorem Same.symm (h : Same v w) :
  Same w v
  := fun p => (h p).symm

/-! ### Paths through a tree -/

theorem lookup_append {q : Path} :
  lookup (p ++ q) v = (lookup p v).bind (lookup q)
  := by
  induction p generalizing v with
  | nil => rfl
  | cons r p ih =>
  cases v with
  | obj ms =>
    rw [cons_append, lookup, lookup]
    cases member ms r with
    | none => rfl
    | some w => exact ih
  | null | bool | num | str | arr => rfl

/-- A leaf is no proper prefix of a path at which there is anything. -/
theorem lookup_eq_of_above
    {q : Path} {x y : Json} (hp : lookup p v = some x) (hx : x.isObject = false)
    (hq : lookup q v = some y) (hpq : p <+: q) :
  p = q
  := by
  obtain ⟨r, rfl⟩ := hpq
  rw [lookup_append, hp, bind_some] at hq
  cases r with
  | nil => rw [append_nil]
  | cons s r =>
    rw [lookup_of_leaf (cons_ne_nil s r) hx] at hq
    cases hq

/-- A path that leads to something leads through tables. -/
theorem exists_table_above
    {q : Path} {y : Json} (hq : lookup q v = some y) (hpq : p <+: q) (hne : p ≠ q) :
  ∃ ms, lookup p v = some (.obj ms)
  := by
  obtain ⟨r, rfl⟩ := hpq
  rw [lookup_append] at hq
  obtain ⟨x, hx, hr⟩ := bind_eq_some_iff.mp hq
  cases hobj : x.isObject with
  | false =>
    apply absurd (lookup_eq_of_above hx hobj (q := p ++ r) _ (prefix_append p r)) hne
    · exact y
    · rw [lookup_append, hx, bind_some, hr]
  | true =>
    cases x with
    | obj ms => exact ⟨ms, hx⟩
    | null | bool | num | str | arr => cases hobj

/-- In a tree without empty tables there is a leaf. -/
theorem exists_leaf : ∀ (v : Json), (∀ p ns, lookup p v = some (.obj ns) → ns ≠ []) →
    ∃ p x, lookup p v = some x ∧ x.isObject = false
  | .obj [], hfull => absurd rfl (hfull [] [] rfl)
  | .obj ((k, v) :: ms), hfull => by
      have hk : ∀ p, lookup (k :: p) (.obj ((k, v) :: ms)) = lookup p v := by
        intro p
        rw [lookup, member_cons, if_pos rfl, bind_some]
      obtain ⟨p, x, hp, hx⟩ := exists_leaf v fun p ns hp => hfull (k :: p) ns (by rw [hk, hp])
      exact ⟨k :: p, x, by rw [hk, hp], hx⟩
  | .null, _ => ⟨[], .null, rfl, rfl⟩
  | .bool b, _ => ⟨[], .bool b, rfl, rfl⟩
  | .num d, _ => ⟨[], .num d, rfl, rfl⟩
  | .str s, _ => ⟨[], .str s, rfl, rfl⟩
  | .arr xs, _ => ⟨[], .arr xs, rfl, rfl⟩

/-- Below every table of a tree without empty ones there is a leaf. -/
theorem Full.exists_leaf
    {ms ns : List (String × Json)} (h : Full ms) (hne : p ≠ [])
    (hp : lookup p (.obj ms) = some (.obj ns)) :
  ∃ q x, lookup q (.obj ms) = some x ∧ x.isObject = false ∧ p <+: q ∧ p ≠ q
  := by
  obtain ⟨r, x, hr, hx⟩ := Json.exists_leaf (.obj ns) fun r ns' hr => h (p ++ r) ns'
    (by simp [hne]) (by rw [lookup_append, hp, bind_some, hr])
  use p ++ r, x
  rw [lookup_append, hp, bind_some, hr]
  refine ⟨rfl, hx, prefix_append p r, ?_⟩
  intro heq
  rw [self_eq_append_right] at heq
  rw [heq] at hr
  cases hr
  cases hx

/-! ### What a series of settings makes -/

section Made

variable {qs : List (Path × Json)} {p : Path}

theorem setAt_ne_nil {q : Path} (hq : q ≠ []) (v : Json) (ms : List (String × Json)) :
  setAt q v ms ≠ []
  := by
  have hset : ∀ k w, setMember ms k w ≠ [] := by
    intro k w h
    have hmember : member (setMember ms k w) k = some w := by
      rw [member_setMember, if_pos rfl]
    rw [h] at hmember
    cases hmember
  cases q with
  | nil => exact absurd rfl hq
  | cons r q =>
    cases q with
    | nil | cons s q => exact hset _ _

theorem effect_self (p : Path) (v : Json) (x : Option Json) :
  effect p p v x = some v
  := by
  induction p with
  | nil => rfl
  | cons r p ih => rw [effect, if_pos rfl, ih]

/-- What is found after a setting: the leaf that was set, a table above it, or what was there. -/
theorem effect_cases
    {q : Path} {v y : Json} {x : Option Json} (hv : v.isObject = false)
    (h : effect p q v x = some y) :
  p = q ∧ y = v ∨ (∃ ms, y = .obj ms ∧ ms ≠ [] ∧ p <+: q ∧ p ≠ q) ∨ touch p q = none ∧ x = some y
  := by
  induction p generalizing q with
  | nil =>
    cases q with
    | nil =>
      left
      exact ⟨rfl, (Option.some.inj h).symm⟩
    | cons r q =>
    right
    left
    use setAt (r :: q) v (table x), (Option.some.inj h).symm, setAt_ne_nil (cons_ne_nil r q) v _
    exact ⟨List.nil_prefix, (cons_ne_nil r q).symm⟩
  | cons s p ih =>
  cases q with
  | nil =>
    rw [effect, lookup_of_leaf (cons_ne_nil s p) hv] at h
    cases h
  | cons r q =>
  rw [effect] at h
  rw [touch]
  split_ifs at h ⊢ with hsame
  · obtain rfl := hsame
    rcases ih h with ⟨rfl, rfl⟩ | ⟨ms, rfl, hms, hpre, hne⟩ | hkept
    · exact Or.inl ⟨rfl, rfl⟩
    · right
      left
      use ms, rfl, hms, (prefix_cons_inj s).mpr hpre
      intro heq
      exact hne (List.cons.inj heq).2
    · exact Or.inr (Or.inr hkept)
  · exact Or.inr (Or.inr ⟨rfl, h⟩)

/-- What is found after a series of settings is a leaf that was set, or a table with something in
it, above a leaf that was set. -/
theorem apply_cases
    (hqs : ∀ q ∈ qs, q.2.isObject = false) {y : Json} (h : apply p none qs = some y) :
  (p, y) ∈ qs ∨ ∃ ms, y = .obj ms ∧ ms ≠ [] ∧ ∃ q ∈ qs, p <+: q.1 ∧ p ≠ q.1
  := by
  induction qs using List.reverseRecOn with
  | nil => cases h
  | append_singleton qs q ih =>
  rw [apply_append] at h
  change effect p q.1 q.2 (apply p none qs) = some y at h
  have hq : q ∈ qs ++ [q] := mem_append_right qs (mem_singleton_self q)
  rcases effect_cases (hqs q hq) h with ⟨rfl, rfl⟩ | ⟨ms, rfl, hms, hpre⟩ | ⟨-, hkept⟩
  · exact Or.inl hq
  · exact Or.inr ⟨ms, rfl, hms, q, hq, hpre⟩
  rcases ih (fun q hq => hqs q (mem_append_left _ hq)) hkept with
    hmem | ⟨ms, rfl, hms, q', hq', hpre⟩
  · exact Or.inl (mem_append_left _ hmem)
  · exact Or.inr ⟨ms, rfl, hms, q', mem_append_left _ hq', hpre⟩

theorem lookup_made (hqs : ∀ q ∈ qs, q.1 ≠ []) (hp : p ≠ []) :
  lookup p (.obj (made qs)) = apply p none qs
  := by
  rw [made, lookup_foldl_setAt hqs, lookup_nil_object hp]

/-- What is found in what a series of settings makes. -/
theorem Settings.cases
    (hqs : Settings qs) (hp : p ≠ []) {y : Json} (h : lookup p (.obj (made qs)) = some y) :
  (p, y) ∈ qs ∨ ∃ ms, y = .obj ms ∧ ms ≠ [] ∧ ∃ q ∈ qs, p <+: q.1 ∧ p ≠ q.1
  := by
  rw [lookup_made hqs.paths hp] at h
  exact apply_cases hqs.leaves h

/-- Settings of distinct paths, none of which is above another. -/
structure Apart (qs : List (Path × Json)) : Prop where
  nodup : (qs.map Prod.fst).Nodup
  antichain : ∀ q ∈ qs, ∀ r ∈ qs, q.1 <+: r.1 → q.1 = r.1

/-- A leaf that is set stays, if the settings are apart. -/
theorem Settings.lookup_of_mem
    (hqs : Settings qs) (hapart : Apart qs) {v : Json} (h : (p, v) ∈ qs) :
  lookup p (.obj (made qs)) = some v
  := by
  rw [lookup_made hqs.paths (hqs.paths _ h)]
  obtain ⟨before, after, rfl⟩ := append_of_mem h
  rw [apply_append]
  change apply p (effect p p v _) after = some v
  rw [effect_self]
  apply apply_of_lastTouch_none
  -- None of the later settings touches the path.
  have hnone : ∀ q ∈ after, touch p q.1 = none := by
    intro q hq
    have hmem : q ∈ before ++ (p, v) :: after := mem_append_right _ (mem_cons_of_mem _ hq)
    have hne : p ≠ q.1 := by
      have hnodup := hapart.nodup
      rw [map_append, map_cons] at hnodup
      rintro rfl
      exact (nodup_cons.mp (nodup_append.mp hnodup).2.1).1 (mem_map.mpr ⟨q, hq, rfl⟩)
    cases htouch : touch p q.1 with
    | none => rfl
    | some t =>
    cases t with
    | gives => exact absurd (hapart.antichain _ h q hmem (touch_eq_gives_iff.mp htouch)) hne
    | takes =>
      exact absurd (hapart.antichain q hmem _ h (touch_eq_takes_iff.mp htouch).1).symm hne
  clear hapart hqs h
  induction after using List.reverseRecOn with
  | nil => rfl
  | append_singleton after q ih =>
    rw [map_append, map_singleton, lastTouch_append_one,
      hnone q (mem_append_right _ (mem_singleton_self q)), none_or]
    exact ih fun q hq => hnone q (mem_append_left _ hq)

/-- Above a leaf that is set there is a table, if the settings are apart. -/
theorem Settings.table_above
    (hqs : Settings qs) (hapart : Apart qs) {q : Path × Json} (h : q ∈ qs) (hpq : p <+: q.1)
    (hne : p ≠ q.1) :
  ∃ ms, lookup p (.obj (made qs)) = some (.obj ms)
  := exists_table_above (hqs.lookup_of_mem hapart (p := q.1) (v := q.2) h) hpq hne

end Made

/-! ### Trees and series of settings -/

section Trees

variable {ms : List (String × Json)} {ls qs : List (Path × Json)}

/-- Leaves are set at their paths, none of which is above another. -/
theorem Leaves.settings (h : Leaves ms ls) :
  Settings ls
  := by
  constructor
  · rintro ⟨p, v⟩ hmem rfl
    obtain ⟨hlook, hleaf⟩ := (h.mem _ _).mp hmem
    cases hlook
    cases hleaf
  · intro q hq
    exact ((h.mem q.1 q.2).mp hq).2

theorem Leaves.apart (h : Leaves ms ls) :
  Apart ls
  := by
  use h.nodup
  intro q hq r hr hpre
  obtain ⟨hqleaf, hobj⟩ := (h.mem q.1 q.2).mp hq
  exact lookup_eq_of_above hqleaf hobj ((h.mem r.1 r.2).mp hr).1 hpre

/-- A tree without empty tables is the same as what is made by setting its leaves. -/
theorem same_made (hls : Leaves ms ls) (hfull : Full ms) :
  Same (.obj (made ls)) (.obj ms)
  := by
  intro p
  by_cases hp : p = []
  · rw [hp]
    rfl
  cases hmade : lookup p (.obj (made ls)) with
  | none =>
    -- What is found in the tree is a leaf or above one, so that it was made.
    cases hms : lookup p (.obj ms) with
    | none => rfl
    | some y =>
    exfalso
    cases hobj : y.isObject with
    | false =>
      rw [hls.settings.lookup_of_mem hls.apart ((hls.mem p y).mpr ⟨hms, hobj⟩)] at hmade
      cases hmade
    | true =>
    obtain ⟨ns, rfl⟩ : ∃ ns, y = .obj ns := by
      cases y with
      | obj ns => exact ⟨ns, rfl⟩
      | null | bool | num | str | arr => cases hobj
    obtain ⟨q, x, hq, hx, hpre, hne⟩ := hfull.exists_leaf hp hms
    obtain ⟨ns', htable⟩ := hls.settings.table_above hls.apart
      ((hls.mem q x).mpr ⟨hq, hx⟩) hpre hne
    rw [htable] at hmade
    cases hmade
  | some y =>
  rcases hls.settings.cases hp hmade with hmem | ⟨ns, rfl, -, q, hq, hpre, hne⟩
  · rw [((hls.mem p y).mp hmem).1]
  · obtain ⟨ns', htable⟩ := exists_table_above ((hls.mem q.1 q.2).mp hq).1 hpre hne
    rw [htable]
    rfl

/-- If as many settings as there are leaves make the tree, they set the paths of the leaves. -/
theorem perm_of_same
    (hls : Leaves ms ls) (hqs : Settings qs) (hlen : qs.length = ls.length)
    (h : Same (.obj (made qs)) (.obj ms)) :
  (ls.map Prod.fst).Perm (qs.map Prod.fst)
  := by
  have hsubset : ls.map Prod.fst ⊆ qs.map Prod.fst := by
    intro p hp
    obtain ⟨⟨p, v⟩, hmem, rfl⟩ := mem_map.mp hp
    obtain ⟨hlook, hleaf⟩ := (hls.mem p v).mp hmem
    have hmade := h.symm.leaf hlook hleaf
    rcases hqs.cases (hls.settings.paths _ hmem) hmade with hq | ⟨ns, rfl, -⟩
    · exact mem_map_of_mem hq
    · cases hleaf
  apply (subperm_of_subset hls.nodup hsubset).perm_of_length_le
  rw [length_map, length_map, hlen]

/-- What is made by settings has no empty tables. -/
theorem full_of_same (hqs : Settings qs) (h : Same (.obj (made qs)) (.obj ms))
    (hls : Leaves ms ls) (hpaths : ls.map Prod.fst = qs.map Prod.fst) :
  Full ms
  := by
  rintro p ns hp hlook rfl
  obtain ⟨ns', htable⟩ := h.symm.table hlook
  rcases hqs.cases hp htable with hmem | ⟨_, _, _, q, hq, ⟨r, hr⟩, hne⟩
  · cases hqs.leaves _ hmem
  -- The table is above a leaf, so that it is not empty.
  have hmem : q.1 ∈ ls.map Prod.fst := by
    rw [hpaths]
    exact mem_map_of_mem hq
  obtain ⟨l, hl, heq⟩ := mem_map.mp hmem
  have hleaf := ((hls.mem l.1 l.2).mp hl).1
  rw [heq, ← hr, lookup_append, hlook, bind_some, lookup_nil_object] at hleaf
  · cases hleaf
  · rintro rfl
    rw [append_nil] at hr
    exact hne hr

/-- If settings of the paths of the leaves make the tree, they set the leaves. -/
theorem eq_of_same
    (hls : Leaves ms ls) (hqs : Settings qs) (hpaths : ls.map Prod.fst = qs.map Prod.fst)
    (h : Same (.obj (made qs)) (.obj ms)) :
  qs = ls
  := by
  have hapart : Apart qs := by
    constructor
    · rw [← hpaths]
      exact hls.nodup
    intro q hq r hr hpre
    have hq' : q.1 ∈ ls.map Prod.fst := by
      rw [hpaths]
      exact mem_map_of_mem hq
    have hr' : r.1 ∈ ls.map Prod.fst := by
      rw [hpaths]
      exact mem_map_of_mem hr
    obtain ⟨l, hl, hlq⟩ := mem_map.mp hq'
    obtain ⟨m, hm, hmr⟩ := mem_map.mp hr'
    rw [← hlq, ← hmr] at hpre ⊢
    exact hls.apart.antichain l hl m hm hpre
  have hsubset : qs ⊆ ls := by
    intro q hq
    have hleaf := hqs.leaves q hq
    exact (hls.mem q.1 q.2).mpr
      ⟨h.leaf (hqs.lookup_of_mem hapart (p := q.1) (v := q.2) hq) hleaf, hleaf⟩
  have hvalues : ∀ i (hi : i < qs.length) (hi' : i < ls.length), qs[i] = ls[i] := by
    intro i hi hi'
    have hfst : ls[i].1 = qs[i].1 := by
      have := congrArg (fun l : List Path => l[i]?) hpaths
      simpa [hi, hi'] using this
    have hmem := (hls.mem qs[i].1 qs[i].2).mp (hsubset (getElem_mem hi))
    have hmem' := (hls.mem ls[i].1 ls[i].2).mp (getElem_mem hi')
    rw [hfst] at hmem'
    apply Prod.ext hfst.symm
    exact Option.some.inj (hmem.1.symm.trans hmem'.1)
  have hlen : qs.length = ls.length := by
    have := congrArg List.length hpaths
    simpa using this.symm
  exact ext_getElem hlen hvalues

end Trees

end Json
