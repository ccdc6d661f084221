import VolundCode.Config.TomlFiles

/-!
# The leaves that are written

The list of leaves in the order in which they are written has every leaf of the tree once
(`leaves_leavesOf`), and every line of a file is empty, the header of a table or the pair of a
leaf (`mem_lines`).
-/

namespace Config.Toml

open Json

/-! ### Members and paths -/

variable {ms : List (String × Json)}

/-- In an ordered object a member is found under its key. -/
theorem member_of_mem (h : InOrder ms) {m : String × Json} (hm : m ∈ ms) :
  member ms m.1 = some m.2
  := by
  induction ms with
  | nil => cases hm
  | cons n ms ih =>
  obtain ⟨hn, hms⟩ := List.pairwise_cons.mp h
  rw [member_cons]
  rcases List.mem_cons.mp hm with rfl | hm
  · rw [if_pos rfl]
  · rw [if_neg (hn m hm).1, ih hms hm]

variable {k : String}

theorem mem_of_member {v : Json} (h : member ms k = some v) :
  (k, v) ∈ ms
  := by
  induction ms with
  | nil => cases h
  | cons n ms ih =>
  rw [member_cons] at h
  split_ifs at h with hk
  · cases h
    rw [← hk]
    exact List.mem_cons_self
  · exact List.mem_cons_of_mem n (ih h)

variable {p : Path}

/-- What is found below an ordered object is found in one of its members. -/
theorem lookup_cons_iff (h : InOrder ms) {x : Json} :
  lookup (k :: p) (.obj ms) = some x ↔ ∃ v, (k, v) ∈ ms ∧ lookup p v = some x
  := by
  rw [lookup, Option.bind_eq_some_iff]
  constructor
  · rintro ⟨v, hv, hx⟩
    exact ⟨v, mem_of_member hv, hx⟩
  · rintro ⟨v, hv, hx⟩
    exact ⟨v, member_of_mem h hv, hx⟩

/-! ### The leaves -/

/-- The part of a path below another one. -/
def Below (p : Path) (v : Json) (leaf : Path × Json) : Prop :=
  ∃ q, q ≠ [] ∧ leaf.1 = p ++ q ∧ lookup q v = some leaf.2 ∧ leaf.2.isObject = false

theorem not_below_of_leaf {v : Json} {leaf : Path × Json} (hv : v.isObject = false) :
  ¬ Below p v leaf
  := by
  rintro ⟨q, hq, -, hlook, -⟩
  rw [lookup_of_leaf hq hv] at hlook
  cases hlook

mutual

/-- The leaves of a value are those found below it. -/
theorem mem_leavesAt : ∀ (v : Json) {p : Path} {leaf : Path × Json}, Ordered v →
    (leaf ∈ leavesAt p v ↔ Below p v leaf)
  | .obj ms, p, leaf, hv => by
      obtain ⟨horder, hmems⟩ := ordered_obj_iff.mp hv
      rw [leavesAt, List.mem_append, List.mem_map, mem_leavesBelow ms hmems]
      constructor
      · rintro (⟨m, hm, rfl⟩ | ⟨m, hm, q, hq, hpath, hlook, hleaf⟩)
        · obtain ⟨hm, hleaf⟩ := mem_scalarsOf.mp hm
          exact ⟨[m.1], List.cons_ne_nil _ _, rfl, (lookup_cons_iff horder).mpr ⟨m.2, hm, rfl⟩,
            hleaf⟩
        · refine ⟨m.1 :: q, List.cons_ne_nil _ _, ?_, (lookup_cons_iff horder).mpr
            ⟨m.2, hm, hlook⟩, hleaf⟩
          rw [hpath, List.append_assoc, List.singleton_append]
      rintro ⟨q, hq, hpath, hlook, hleaf⟩
      obtain ⟨k, q, rfl⟩ := List.exists_cons_of_ne_nil hq
      obtain ⟨w, hw, hlook⟩ := (lookup_cons_iff horder).mp hlook
      by_cases hq : q = []
      · left
        subst hq
        cases hlook
        exact ⟨(k, leaf.2), mem_scalarsOf.mpr ⟨hw, hleaf⟩, Prod.ext hpath.symm rfl⟩
      · right
        refine ⟨(k, w), hw, q, hq, ?_, hlook, hleaf⟩
        rw [hpath, List.append_assoc, List.singleton_append]
  | .null, _, _, _ | .bool _, _, _, _ | .num _, _, _, _ | .str _, _, _, _ | .arr _, _, _, _ =>
    ⟨nofun, fun h => absurd h (not_below_of_leaf rfl)⟩

theorem mem_leavesBelow : ∀ (ms : List (String × Json)) {p : Path} {leaf : Path × Json},
    (∀ m ∈ ms, Ordered m.2) →
    (leaf ∈ leavesBelow p ms ↔ ∃ m ∈ ms, Below (p ++ [m.1]) m.2 leaf)
  | [], _, _, _ => ⟨nofun, fun ⟨_, hm, _⟩ => absurd hm List.not_mem_nil⟩
  | (k, v) :: ms, p, leaf, hms => by
      obtain ⟨hv, hms⟩ := List.forall_mem_cons.mp hms
      rw [leavesBelow, List.mem_append, mem_leavesAt v hv, mem_leavesBelow ms hms]
      constructor
      · rintro (h | ⟨m, hm, h⟩)
        · exact ⟨(k, v), List.mem_cons_self, h⟩
        · exact ⟨m, List.mem_cons_of_mem _ hm, h⟩
      rintro ⟨m, hm, h⟩
      rcases List.mem_cons.mp hm with rfl | hm
      · exact Or.inl h
      · exact Or.inr ⟨m, hm, h⟩

end

/-- The paths of leaves below different members are different. -/
theorem ne_of_below
    {l : String} {v w : Json} {leaf leaf' : Path × Json} (hkl : k ≠ l)
    (h : Below (p ++ [k]) v leaf) (h' : Below (p ++ [l]) w leaf') :
  leaf.1 ≠ leaf'.1
  := by
  obtain ⟨q, -, hpath, -⟩ := h
  obtain ⟨q', -, hpath', -⟩ := h'
  rw [hpath, hpath', List.append_assoc, List.append_assoc]
  intro heq
  exact hkl (List.cons.inj (List.append_cancel_left heq)).1

mutual

/-- Every leaf is written once. -/
theorem nodup_leavesAt : ∀ (v : Json) {p : Path}, Ordered v → ((leavesAt p v).map Prod.fst).Nodup
  | .obj ms, p, hv => by
      obtain ⟨horder, hmems⟩ := ordered_obj_iff.mp hv
      rw [leavesAt, List.map_append, List.nodup_append]
      refine ⟨?_, nodup_leavesBelow ms horder hmems, ?_⟩
      · rw [List.map_map]
        have hkeys : ((scalarsOf ms).map Prod.fst).Nodup :=
          horder.nodup.sublist (List.filter_sublist.map Prod.fst)
        have hpaths := hkeys.map (f := fun k => p ++ [k]) fun k l hkl => by simpa using hkl
        rwa [List.map_map] at hpaths
      rintro _ hfst _ hfst' rfl
      rw [List.map_map] at hfst
      obtain ⟨m, -, hm⟩ := List.mem_map.mp hfst
      obtain ⟨leaf, hleaf, heq⟩ := List.mem_map.mp hfst'
      obtain ⟨n, -, q, hq, hpath, -⟩ := (mem_leavesBelow ms hmems).mp hleaf
      -- A path below a member is longer.
      have hlen := congrArg List.length (hpath.symm.trans (heq.trans hm.symm))
      have hpositive := List.length_pos_of_ne_nil hq
      simp only [Function.comp, List.length_append, List.length_singleton] at hlen
      omega
  | .null, _, _ | .bool _, _, _ | .num _, _, _ | .str _, _, _ | .arr _, _, _ => List.nodup_nil

theorem nodup_leavesBelow : ∀ (ms : List (String × Json)) {p : Path}, InOrder ms →
    (∀ m ∈ ms, Ordered m.2) → ((leavesBelow p ms).map Prod.fst).Nodup
  | [], _, _, _ => List.nodup_nil
  | (k, v) :: ms, p, horder, hms => by
      obtain ⟨hv, hms⟩ := List.forall_mem_cons.mp hms
      obtain ⟨hk, horder⟩ := List.pairwise_cons.mp horder
      rw [leavesBelow, List.map_append, List.nodup_append]
      refine ⟨nodup_leavesAt v hv, nodup_leavesBelow ms horder hms, ?_⟩
      intro _ hfst _ hfst'
      obtain ⟨leaf, hleaf, rfl⟩ := List.mem_map.mp hfst
      obtain ⟨leaf', hleaf', rfl⟩ := List.mem_map.mp hfst'
      obtain ⟨m, hm, hbelow⟩ := (mem_leavesBelow ms hms).mp hleaf'
      exact ne_of_below (hk m hm).1 ((mem_leavesAt v hv).mp hleaf) hbelow

end

variable {config : Config}

/-- The leaves that are written are those of the tree. -/
theorem leaves_leavesOf (h : Ordered (.obj config)) :
  Leaves config (leavesOf config)
  := by
  use nodup_leavesAt _ h
  intro p v
  rw [leavesOf, mem_leavesAt _ h]
  constructor
  · rintro ⟨q, -, rfl, hlook, hleaf⟩
    exact ⟨hlook, hleaf⟩
  rintro ⟨hlook, hleaf⟩
  refine ⟨p, ?_, rfl, hlook, hleaf⟩
  rintro rfl
  cases hlook
  cases hleaf

/-! ### The lines -/

/-- What a line at a path stands for: nothing, the header of a table or the pair of a leaf. -/
def Written (p : Path) (v : Json) (l : List Char) : Prop :=
  l = [] ∨
    (∃ q ms, lookup q v = some (.obj ms) ∧ p ++ q ≠ [] ∧ l = headerLine (joinDots (p ++ q))) ∨
    ∃ q k x, lookup (q ++ [k]) v = some x ∧ x.isObject = false ∧ l = pairLine (k, x)

variable {l : List Char}

/-- What is written for a member is written for the table. -/
theorem Written.member
    (h : InOrder ms) {m : String × Json} (hm : m ∈ ms) (hl : Written (p ++ [m.1]) m.2 l) :
  Written p (.obj ms) l
  := by
  rcases hl with rfl | ⟨q, ns, hlook, -, rfl⟩ | ⟨q, k, x, hlook, hx, rfl⟩
  · exact Or.inl rfl
  · right
    left
    refine ⟨m.1 :: q, ns, (lookup_cons_iff h).mpr ⟨m.2, hm, hlook⟩, by simp, ?_⟩
    rw [List.append_assoc, List.singleton_append]
  · right
    right
    exact ⟨m.1 :: q, k, x, (lookup_cons_iff h).mpr ⟨m.2, hm, hlook⟩, hx, rfl⟩

theorem Written.scalar
    (h : InOrder ms) (hl : l ∈ (scalarsOf ms).map pairLine) :
  Written p (.obj ms) l
  := by
  obtain ⟨m, hm, rfl⟩ := List.mem_map.mp hl
  obtain ⟨hm, hleaf⟩ := mem_scalarsOf.mp hm
  right
  right
  exact ⟨[], m.1, m.2, (lookup_cons_iff h).mpr ⟨m.2, hm, rfl⟩, hleaf, rfl⟩

mutual

theorem written_of_mem_emitTable : ∀ (v : Json) {p : Path} {l : List Char}, Ordered v → p ≠ [] →
    l ∈ emitTable (joinDots p) v → Written p v l
  | .obj ms, p, l, hv, hp, hl => by
      obtain ⟨horder, hmems⟩ := ordered_obj_iff.mp hv
      rw [emitTable, List.mem_append, List.mem_append] at hl
      rcases hl with (hl | hl) | hl
      · rw [headerLines_eq] at hl
        split_ifs at hl
        · rcases List.mem_cons.mp hl with rfl | hl
          · exact Or.inl rfl
          right
          left
          refine ⟨[], ms, rfl, by simpa using hp, ?_⟩
          rw [List.append_nil]
          exact List.mem_singleton.mp hl
        · cases hl
      · exact Written.scalar horder hl
      · obtain ⟨m, hm, hwrote⟩ := written_of_mem_emitNested ms hmems
          (fun k => (joinDots_concat hp k).symm) hl
        exact hwrote.member horder hm
  | .null, _, _, _, _, hl | .bool _, _, _, _, _, hl | .num _, _, _, _, _, hl
  | .str _, _, _, _, _, hl | .arr _, _, _, _, _, hl => absurd hl List.not_mem_nil

theorem written_of_mem_emitNested : ∀ (ms : List (String × Json)) {p : Path} {pre : String}
    {l : List Char}, (∀ m ∈ ms, Ordered m.2) → (∀ k, pre ++ k = joinDots (p ++ [k])) →
    l ∈ emitNested pre ms → ∃ m ∈ ms, Written (p ++ [m.1]) m.2 l
  | [], _, _, _, _, _, hl => absurd hl List.not_mem_nil
  | (k, v) :: ms, p, pre, l, hms, hpre, hl => by
      obtain ⟨hv, hms⟩ := List.forall_mem_cons.mp hms
      rw [emitNested, hpre, List.mem_append] at hl
      rcases hl with hl | hl
      · exact ⟨(k, v), List.mem_cons_self, written_of_mem_emitTable v hv (by simp) hl⟩
      · obtain ⟨m, hm, hwrote⟩ := written_of_mem_emitNested ms hms hpre hl
        exact ⟨m, List.mem_cons_of_mem _ hm, hwrote⟩

end

/-- Every line of a file is empty, the header of a table or the pair of a leaf. -/
theorem mem_lines (h : Ordered (.obj config)) (hl : l ∈ lines config) :
  Written [] (.obj config) l
  := by
  obtain ⟨horder, hmems⟩ := ordered_obj_iff.mp h
  rw [lines, List.mem_append] at hl
  rcases hl with hl | hl
  · exact Written.scalar horder hl
  have hpre : ∀ k, "" ++ k = joinDots ([] ++ [k]) := by
    intro k
    rw [List.nil_append, joinDots_singleton, String.empty_append]
  obtain ⟨m, hm, hwrote⟩ := written_of_mem_emitNested config hmems hpre hl
  exact hwrote.member horder hm

mutual

theorem pairLine_mem_emitTable : ∀ (v : Json) {p : Path} {path : String} {q : Path} {k : String}
    {x : Json}, (q ++ [k], x) ∈ leavesAt p v → pairLine (k, x) ∈ emitTable path v
  | .obj ms, p, path, q, k, x, h => by
      rw [leavesAt, List.mem_append, List.mem_map] at h
      rw [emitTable, List.mem_append, List.mem_append]
      rcases h with ⟨m, hm, heq⟩ | h
      · left
        right
        obtain ⟨hpath, rfl⟩ := Prod.mk.inj heq
        obtain ⟨-, hk⟩ := List.append_inj' hpath rfl
        obtain rfl := (List.cons.inj hk).1
        exact List.mem_map.mpr ⟨m, hm, rfl⟩
      · right
        exact pairLine_mem_emitNested ms h
  | .null, _, _, _, _, _, h | .bool _, _, _, _, _, _, h | .num _, _, _, _, _, _, h
  | .str _, _, _, _, _, _, h | .arr _, _, _, _, _, _, h => absurd h List.not_mem_nil

theorem pairLine_mem_emitNested : ∀ (ms : List (String × Json)) {p : Path} {pre : String}
    {q : Path} {k : String} {x : Json}, (q ++ [k], x) ∈ leavesBelow p ms →
    pairLine (k, x) ∈ emitNested pre ms
  | [], _, _, _, _, _, h => absurd h List.not_mem_nil
  | (l, v) :: ms, p, pre, q, k, x, h => by
      rw [leavesBelow, List.mem_append] at h
      rw [emitNested, List.mem_append]
      rcases h with h | h
      · exact Or.inl (pairLine_mem_emitTable v h)
      · exact Or.inr (pairLine_mem_emitNested ms h)

end

/-- Every leaf has a line. -/
theorem pairLine_mem_lines {q : Path} {x : Json} (h : (q ++ [k], x) ∈ leavesOf config) :
  pairLine (k, x) ∈ lines config
  := by
  rw [leavesOf, leavesAt, List.mem_append, List.mem_map] at h
  rw [lines, List.mem_append]
  rcases h with ⟨m, hm, heq⟩ | h
  · obtain ⟨hpath, rfl⟩ := Prod.mk.inj heq
    obtain ⟨-, hk⟩ := List.append_inj' hpath rfl
    obtain rfl := (List.cons.inj hk).1
    exact Or.inl (List.mem_map.mpr ⟨m, hm, rfl⟩)
  · exact Or.inr (pairLine_mem_emitNested config h)

/-- No line has a line feed in it. -/
theorem notMem_of_mem_lines (h : Ordered (.obj config)) (hl : l ∈ lines config) :
  '\n' ∉ l
  := by
  have hprintable : ∀ c ∈ l, 0x20 ≤ c.toNat := by
    rcases mem_lines h hl with rfl | ⟨q, ms, -, -, rfl⟩ | ⟨q, k, x, -, -, rfl⟩
    · exact List.forall_mem_nil _
    · intro c hc
      simp only [headerLine, List.mem_cons, List.mem_append, List.not_mem_nil, or_false] at hc
      rcases hc with rfl | hc | rfl
      · decide
      · exact (pieces_tomlSectionPath _).2 c hc
      · decide
    · exact (pieces_pairLine _).printable
  intro hmem
  exact absurd (hprintable _ hmem) (by decide)

/-- What is read from a file that was written. -/
theorem parseTomlContent_serializeToml {w : Config} (h : Ordered (.obj config)) :
  parseTomlContent (serializeToml config) = .ok w ↔
    (∀ l ∈ lines config, ∃ line, readLine l = .ok line) ∧
      assignAll [] ((leavesOf config).map entryOf) = .ok w
  := by
  rw [parseTomlContent, parseLines_eq_ok_iff, serializeToml,
    runLines_join fun l hl => notMem_of_mem_lines h hl]
  constructor
  · rintro ⟨names, entries, hrun, hassn⟩
    refine ⟨readLine_of_runLines hrun, ?_⟩
    rwa [← runLines_lines h hrun]
  rintro ⟨hlines, hassn⟩
  obtain ⟨⟨names, entries⟩, hrun⟩ := exists_runLines hlines []
  refine ⟨names, entries, hrun, ?_⟩
  rwa [← runLines_lines h hrun] at hassn

end Config.Toml
