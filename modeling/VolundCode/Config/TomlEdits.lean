import VolundCode.Config.TomlPlain

/-!
# Editing a configuration file

An edit reads a file, changes the tree and writes it. The writer and the reader agree on a tree
just if no table is empty, the names of tables are bare, the keys of values have nothing that is
escaped and no dot, no name is forbidden, and the values have no line separator, no number that is
not finite and no member named `__proto__` (`roundTrips_iff`). So a file with a table whose name
has to be quoted is changed by any edit (`not_roundTrips`).

The writer gives a line to every leaf of a tree. Where all of them are read, as many values are
assigned as there are leaves, so that the same tree is made only if every leaf is assigned to its
own path. No key is read shorter than it is written, and a name with a dot in it becomes several
names; since nothing can make up for this, every key is read as it is.
-/

namespace Config.Toml

open Json List

/-! ### The conditions -/

/-- A key in which nothing is escaped and no dot is. -/
def verbatim (k : String) : Bool :=
  k.toList.all fun c => verbatimChar c && c ≠ '.'

/-- What is written for the tree is read as the same tree. -/
def RoundTrips (config : Config) : Prop :=
  ∃ w, parseTomlContent (serializeToml config) = .ok w ∧ Same (.obj w) (.obj config)

/-- The conditions under which a tree can be written. -/
structure Writable (config : Config) : Prop where
  /-- No table below the root is empty. -/
  full : Full config
  /-- The names of tables are bare. -/
  tables : ∀ p ms, lookup p (.obj config) = some (.obj ms) → ∀ name ∈ p, bare name
  /-- The keys of values are read as they are. -/
  keys : ∀ p k v, lookup (p ++ [k]) (.obj config) = some v → v.isObject = false → verbatim k
  /-- No name on the way to a value is forbidden. -/
  names : ∀ p v, lookup p (.obj config) = some v → v.isObject = false →
    ∀ name ∈ p, name ∉ forbiddenKeySegments
  /-- The values are read as they are. -/
  values : ∀ p v, lookup p (.obj config) = some v → v.isObject = false → plain v

theorem verbatim_iff {k : String} :
  verbatim k ↔ keyRead k = k ∧ '.' ∉ k.toList
  := by
  rw [verbatim, all_eq_true, keyRead_eq_iff]
  constructor
  · intro h
    constructor
    · intro c hc
      exact quoteChar_eq_iff.mpr (Bool.and_eq_true_iff.mp (h c hc)).1
    · intro hdot
      exact absurd (h '.' hdot) (by decide)
  · rintro ⟨hall, hdot⟩ c hc
    rw [Bool.and_eq_true_iff, decide_eq_true_eq]
    exact ⟨quoteChar_eq_iff.mp (hall c hc), ne_of_mem_of_not_mem hc hdot⟩

/-! ### Names and dots -/

theorem toList_joinDots (p : Path) :
  (joinDots p).toList = ['.'].intercalate (p.map String.toList)
  := String.toList_ofList

theorem joinDots_segments (s : String) :
  joinDots (segments s) = s
  := by
  rw [joinDots, segments, map_map]
  have hid : String.toList ∘ String.ofList = id := by
    funext cs
    exact String.toList_ofList
  rw [hid, map_id, intercalate_splitOn, String.ofList_toList]

variable {p : Path}

/-- A path without dots in its names is found again. -/
theorem segments_joinDots (hp : p ≠ []) (h : ∀ name ∈ p, '.' ∉ name.toList) :
  segments (joinDots p) = p
  := by
  rw [segments, toList_joinDots, splitOn_intercalate]
  · rw [map_map]
    have hid : String.ofList ∘ String.toList = id := by
      funext s
      exact String.ofList_toList
    rw [hid, map_id]
  · intro part hpart
    obtain ⟨name, hname, rfl⟩ := mem_map.mp hpart
    exact h name hname
  · simpa using hp

/-- A path is split into no fewer names than it has, and into as many just if there is no dot in
one of them. -/
theorem length_segments_joinDots (hp : p ≠ []) :
  p.length ≤ (segments (joinDots p)).length ∧
    ((segments (joinDots p)).length = p.length → ∀ name ∈ p, '.' ∉ name.toList)
  := by
  have hcount := @Splitting.count_intercalate _ _ '.' (p.map String.toList) (by simpa using hp)
  rw [map_map, length_map] at hcount
  rw [segments, length_map, Splitting.length_splitOn, toList_joinDots, hcount]
  refine ⟨by omega, ?_⟩
  intro hlen name hname
  have hzero : (p.map (List.count '.' ∘ String.toList)).sum = 0 := by omega
  exact count_eq_zero.mp
    (sum_eq_zero_iff.mp hzero _ (mem_map.mpr ⟨name, hname, rfl⟩))

theorem length_joinDots (hp : p ≠ []) :
  (joinDots p).toList.length + 1 = (p.map fun name => name.toList.length).sum + p.length
  := by
  have hlen := @Splitting.length_intercalate _ '.' (p.map String.toList) (by simpa using hp)
  rw [map_map, length_map] at hlen
  rw [toList_joinDots, hlen]
  rfl

/-- The name of a header is read no shorter than it is, and as long just if it is bare. -/
theorem length_headerNames (s : String) :
  s.toList.length ≤ (joinDots (headerNames s)).toList.length ∧
    ((joinDots (headerNames s)).toList.length = s.toList.length →
      headerNames s = segments s ∧ ∀ name ∈ segments s, bare name)
  := by
  have hne : headerNames s ≠ [] := by
    rw [headerNames]
    simpa using segments_ne_nil s
  have hlen := length_joinDots (segments_ne_nil s)
  have hread := length_joinDots hne
  have hmap : (headerNames s).map (fun name => name.toList.length) =
      (segments s).map fun name => (tomlKey name).length := by
    rw [headerNames, map_map]
    apply map_congr_left
    intro name _
    rw [Function.comp, String.toList_ofList]
  have hnames : (headerNames s).length = (segments s).length := by
    rw [headerNames, length_map]
  rw [joinDots_segments] at hlen
  rw [hmap, hnames] at hread
  have hle : ((segments s).map fun name => name.toList.length).sum ≤
      ((segments s).map fun name => (tomlKey name).length).sum :=
    sum_le_sum fun name _ => (length_tomlKey name).1
  refine ⟨by omega, ?_⟩
  intro heq
  have hbare : ∀ name ∈ segments s, bare name := by
    intro name hname
    have hterm := Splitting.eq_of_sum_le (fun name _ => (length_tomlKey name).1)
      (l := segments s) (by omega) name hname
    exact (length_tomlKey name).2 hterm.symm
  refine ⟨?_, hbare⟩
  rw [headerNames]
  conv_rhs => rw [← map_id (segments s)]
  apply map_congr_left
  intro name hname
  rw [tomlKey, if_pos (hbare name hname), String.ofList_toList, id]

/-! ### The keys that are read -/

theorem writtenKey_concat (p : Path) (k : String) :
  writtenKey (p ++ [k]) = dottedKey (tableNames p) (keyRead k)
  := by
  rw [writtenKey, dropLast_concat, getLastD_concat]

/-- The dotted key of a value in a table. -/
theorem dottedKey_eq {names : List String} (h : names ≠ []) (key : String) :
  dottedKey names key = joinDots names ++ "." ++ key
  := joinDots_concat h key

theorem length_dot (s t : String) :
  (s ++ "." ++ t).toList.length = s.toList.length + 1 + t.toList.length
  := by
  rw [String.toList_append, String.toList_append, length_append, length_append]
  rfl

/-- The key of a leaf is read no shorter than it is, and as long just if the names of its table
are bare and its own is read as it is. -/
theorem length_writtenKey (p : Path) (k : String) :
  (joinDots (p ++ [k])).toList.length ≤ (writtenKey (p ++ [k])).toList.length ∧
    ((writtenKey (p ++ [k])).toList.length = (joinDots (p ++ [k])).toList.length →
      keyRead k = k ∧ (p ≠ [] → ∀ name ∈ segments (joinDots p), bare name) ∧
        writtenKey (p ++ [k]) = joinDots (p ++ [k]))
  := by
  obtain ⟨hkey, hkept⟩ := length_keyRead k
  rw [writtenKey_concat, tableNames]
  split_ifs with hp
  · rw [hp, nil_append, dottedKey, nil_append, joinDots_singleton, joinDots_singleton]
    refine ⟨hkey, ?_⟩
    intro hlen
    exact ⟨hkept hlen, fun h => absurd rfl h, hkept hlen⟩
  obtain ⟨hnames, hbare⟩ := length_headerNames (joinDots p)
  have hne : headerNames (joinDots p) ≠ [] := by
    rw [headerNames]
    simpa using segments_ne_nil (joinDots p)
  rw [dottedKey_eq hne, joinDots_concat hp, length_dot, length_dot]
  refine ⟨by omega, ?_⟩
  intro hlen
  obtain ⟨hsegments, hbare⟩ := hbare (by omega)
  refine ⟨hkept (by omega), fun _ => hbare, ?_⟩
  rw [hsegments, joinDots_segments, hkept (by omega)]

/-! ### Trees that can be written are read again -/

variable {config : Config}

/-- The lines of a tree that can be written are read. -/
theorem Writable.readable
    (hw : Writable config) (h : Ordered (.obj config)) :
  ∀ l ∈ lines config, ∃ line, readLine l = .ok line
  := by
  intro l hl
  rcases mem_lines h hl with rfl | ⟨p, ms, hlook, hp, rfl⟩ | ⟨p, k, x, hlook, hx, rfl⟩
  · exact ⟨.blank, rfl⟩
  · rw [nil_append] at hp ⊢
    have hbare := hw.tables p ms hlook
    have hdot : ∀ name ∈ p, '.' ∉ name.toList := by
      intro name hname hmem
      exact absurd ((bare_iff.mp (hbare name hname)).2 '.' hmem) (by decide)
    refine ⟨_, readLine_header ?_⟩
    rw [tomlSectionPath, segments_joinDots hp hdot, if_pos (all_eq_true.mpr hbare), toList_joinDots]
    intro hmem
    rcases Splitting.mem_intercalate hmem with hclose | ⟨part, hpart, hmem⟩
    · exact absurd hclose (by decide)
    · obtain ⟨name, hname, rfl⟩ := mem_map.mp hpart
      exact absurd ((bare_iff.mp (hbare name hname)).2 ']' hmem) (by decide)
  have hkey := (verbatim_iff.mp (hw.keys p k x hlook hx)).1
  refine ⟨_, (readLine_pairLine_iff (ordered_of_lookup h hlook)).mpr ⟨⟨?_, ?_⟩, rfl⟩⟩
  · intro hquote
    exact absurd (keyRead_eq_iff.mp hkey '"' hquote) (by decide)
  · exact ((plain_iff x).mp (hw.values _ x hlook hx)).1

/-- The names on the way to a leaf of a tree that can be written have no dots. -/
theorem Writable.dot_notMem
    (hw : Writable config) {k : String} {x : Json}
    (hlook : lookup (p ++ [k]) (.obj config) = some x) (hx : x.isObject = false) :
  (∀ name ∈ p, bare name = true) ∧ ∀ name ∈ p ++ [k], '.' ∉ name.toList
  := by
  obtain ⟨ms, htable⟩ := exists_table_above hlook (prefix_append p [k]) (by simp)
  have hbare := hw.tables p ms htable
  use hbare
  intro name hname hmem
  rcases mem_append.mp hname with hname | hname
  · exact absurd ((bare_iff.mp (hbare name hname)).2 '.' hmem) (by decide)
  · rw [mem_singleton.mp hname] at hmem
    exact (verbatim_iff.mp (hw.keys p k x hlook hx)).2 hmem

/-- A leaf of a tree that can be written is read under its own path. -/
theorem Writable.segments_writtenKey
    (hw : Writable config) {k : String} {x : Json}
    (hlook : lookup (p ++ [k]) (.obj config) = some x) (hx : x.isObject = false) :
  segments (writtenKey (p ++ [k])) = p ++ [k]
  := by
  obtain ⟨hbare, hdot⟩ := hw.dot_notMem hlook hx
  have hkey := (verbatim_iff.mp (hw.keys p k x hlook hx)).1
  have hwrote : writtenKey (p ++ [k]) = joinDots (p ++ [k]) := by
    rw [writtenKey_concat, tableNames, hkey]
    split_ifs with hp
    · rw [hp]
      rfl
    have hnames : headerNames (joinDots p) = p := by
      rw [headerNames, segments_joinDots hp fun name hname =>
        hdot name (mem_append_left [k] hname)]
      conv_rhs => rw [← map_id p]
      apply map_congr_left
      intro name hname
      rw [tomlKey, if_pos (hbare name hname), String.ofList_toList, id]
    rw [hnames]
    rfl
  rw [hwrote, segments_joinDots (by simp) hdot]

/-- The paths and values that are set when the file of a tree is read. -/
theorem settings_entries (ls : List (Path × Json)) :
  settings (ls.map entryOf) = ls.map fun l => (segments (writtenKey l.1), reread l.2)
  := by
  rw [settings, map_map]
  rfl

theorem exists_concat_of_mem
    {ls : List (Path × Json)} (hls : Leaves config ls) {l : Path × Json} (hl : l ∈ ls) :
  ∃ p k, l.1 = p ++ [k]
  := by
  have hne := hls.settings.paths l hl
  exact ⟨l.1.dropLast, l.1.getLast hne, (dropLast_append_getLast hne).symm⟩

/-- A tree that can be written is read again. -/
theorem Writable.roundTrips
    (hw : Writable config) (h : Ordered (.obj config)) :
  RoundTrips config
  := by
  have hls := leaves_leavesOf h
  have hread : ∀ l ∈ leavesOf config, (segments (writtenKey l.1), reread l.2) = l := by
    intro l hl
    obtain ⟨hlook, hx⟩ := (hls.mem l.1 l.2).mp hl
    obtain ⟨p, k, hp⟩ := exists_concat_of_mem hls hl
    rw [hp] at hlook
    apply Prod.ext
    · rw [hp, hw.segments_writtenKey hlook hx]
    · exact ((plain_iff l.2).mp (hw.values _ l.2 hlook hx)).2
  have hsett : settings ((leavesOf config).map entryOf) = leavesOf config := by
    rw [settings_entries]
    conv_rhs => rw [← map_id (leavesOf config)]
    exact map_congr_left hread
  refine ⟨made (leavesOf config), (parseTomlContent_serializeToml h).mpr
    ⟨hw.readable h, assignAll_eq_ok_iff.mpr ⟨?_, ?_⟩⟩, same_made hls hw.full⟩
  · intro entry hentry
    obtain ⟨l, hl, rfl⟩ := mem_map.mp hentry
    obtain ⟨hlook, hx⟩ := (hls.mem l.1 l.2).mp hl
    rw [assignable, Bool.not_eq_true', any_eq_false]
    intro name hname
    have hpath : segments (writtenKey l.1) = l.1 := congrArg Prod.fst (hread l hl)
    change name ∈ segments (writtenKey l.1) at hname
    rw [hpath] at hname
    simpa using hw.names l.1 l.2 hlook hx name hname
  · rw [hsett]
    rfl

/-! ### Trees that are read again can be written -/

section Necessary

variable {config : Config} {ls : List (Path × Json)}

/-- Every leaf is read under its own path, if the paths that are set are those of the leaves in
any order. -/
theorem writtenKey_of_perm
    (hls : Leaves config ls)
    (hperm : (ls.map Prod.fst).Perm (ls.map fun l => segments (writtenKey l.1))) :
  ∀ l ∈ ls, ∀ p k, l.1 = p ++ [k] →
    keyRead k = k ∧ (∀ name ∈ p, bare name = true) ∧ (∀ name ∈ p ++ [k], '.' ∉ name.toList) ∧
      segments (writtenKey l.1) = l.1
  := by
  -- The lengths of the keys are the same in sum, so that no key is longer when it is read.
  have hlengths : ∀ l ∈ ls, (joinDots l.1).toList.length = (writtenKey l.1).toList.length := by
    apply Splitting.eq_of_sum_le
    · intro l hl
      obtain ⟨p, k, hp⟩ := exists_concat_of_mem hls hl
      rw [hp]
      exact (length_writtenKey p k).1
    have hsum := (hperm.map fun p => (joinDots p).toList.length).sum_eq
    rw [map_map, map_map] at hsum
    rw [show (fun l : Path × Json => (writtenKey l.1).toList.length) =
      (fun p => (joinDots p).toList.length) ∘ fun l => segments (writtenKey l.1) by
        funext l
        rw [Function.comp, joinDots_segments]]
    exact hsum.ge
  have hwrote : ∀ l ∈ ls, writtenKey l.1 = joinDots l.1 := by
    intro l hl
    obtain ⟨p, k, hp⟩ := exists_concat_of_mem hls hl
    have hlen := hlengths l hl
    rw [hp] at hlen ⊢
    exact ((length_writtenKey p k).2 hlen.symm).2.2
  -- The numbers of names are the same in sum, so that no name has a dot in it.
  have hnumbers : ∀ l ∈ ls, l.1.length = (segments (joinDots l.1)).length := by
    apply Splitting.eq_of_sum_le
    · intro l hl
      exact (length_segments_joinDots (hls.settings.paths l hl)).1
    have hsum := (hperm.map List.length).sum_eq
    rw [map_map, map_map] at hsum
    have hcongr : ls.map (List.length ∘ fun l => segments (writtenKey l.1)) =
        ls.map fun l => (segments (joinDots l.1)).length := by
      apply map_congr_left
      intro l hl
      rw [Function.comp, hwrote l hl]
    rw [hcongr] at hsum
    exact hsum.ge
  intro l hl p k hp
  have hne := hls.settings.paths l hl
  have hdot := (length_segments_joinDots hne).2 (hnumbers l hl).symm
  have hlen := hlengths l hl
  rw [hp] at hlen hdot
  obtain ⟨hkey, hbare, -⟩ := (length_writtenKey p k).2 hlen.symm
  refine ⟨hkey, ?_, hdot, ?_⟩
  · intro name hname
    have hpne : p ≠ [] := ne_nil_of_mem hname
    apply hbare hpne
    rw [segments_joinDots hpne fun name hname => hdot name (mem_append_left [k] hname)]
    exact hname
  rw [hwrote l hl]
  apply segments_joinDots hne
  rw [hp]
  exact hdot

theorem isObject_reread {v : Json} (h : v.isObject = false) :
  (reread v).isObject = false
  := by
  cases v with
  | obj ms => cases h
  | num d =>
    rw [reread]
    split_ifs
    · rfl
    · rfl
  | arr xs =>
    rw [reread]
    rfl
  | null | bool | str => simp only [reread, isObject]

/-- A tree that is read again can be written. -/
theorem RoundTrips.writable (hread : RoundTrips config) (h : Ordered (.obj config)) :
  Writable config
  := by
  obtain ⟨w, hparse, hsame⟩ := hread
  obtain ⟨hlines, hassign⟩ := (parseTomlContent_serializeToml h).mp hparse
  obtain ⟨hassn, rfl⟩ := assignAll_eq_ok_iff.mp hassign
  rw [settings_entries] at hsame
  have hls := leaves_leavesOf h
  have hsett : Settings ((leavesOf config).map fun l =>
      (segments (writtenKey l.1), reread l.2)) := by
    constructor
    · intro q hq
      obtain ⟨l, -, rfl⟩ := mem_map.mp hq
      exact segments_ne_nil _
    · intro q hq
      obtain ⟨l, hl, rfl⟩ := mem_map.mp hq
      exact isObject_reread ((hls.mem l.1 l.2).mp hl).2
  have hperm := perm_of_same hls hsett (length_map _) hsame
  rw [map_map] at hperm
  have hkept := writtenKey_of_perm hls hperm
  have hpath : ∀ l ∈ leavesOf config, segments (writtenKey l.1) = l.1 := by
    intro l hl
    obtain ⟨p, k, hp⟩ := exists_concat_of_mem hls hl
    exact (hkept l hl p k hp).2.2.2
  have hpaths : (leavesOf config).map Prod.fst =
      ((leavesOf config).map fun l => (segments (writtenKey l.1), reread l.2)).map Prod.fst := by
    rw [map_map]
    exact map_congr_left fun l hl => (hpath l hl).symm
  have hfull := full_of_same hsett hsame hls hpaths
  have heq := eq_of_same hls hsett hpaths hsame
  have hvalue : ∀ l ∈ leavesOf config, reread l.2 = l.2 := by
    conv at heq => rhs; rw [← map_id (leavesOf config)]
    intro l hl
    exact congrArg Prod.snd (map_inj_left.mp heq l hl)
  constructor
  · exact hfull
  · intro p ms hlook name hname
    -- There is a leaf in the table, and the names above it are bare.
    obtain ⟨q, x, hq, hx, ⟨r, rfl⟩, hne⟩ := hfull.exists_leaf (ne_nil_of_mem hname) hlook
    obtain ⟨r, k, rfl⟩ : ∃ s k, r = s ++ [k] := by
      rcases eq_nil_or_concat r with rfl | ⟨s, k, rfl⟩
      · exact absurd (append_nil p).symm hne
      · exact ⟨s, k, concat_eq_append⟩
    have hmem := (hls.mem _ x).mpr ⟨hq, hx⟩
    exact (hkept _ hmem (p ++ r) k (append_assoc p r [k]).symm).2.1 name
      (mem_append_left r hname)
  · intro p k v hlook hv
    obtain ⟨hkey, -, hdot, -⟩ := hkept _ ((hls.mem _ v).mpr ⟨hlook, hv⟩) p k rfl
    exact verbatim_iff.mpr ⟨hkey, hdot k (mem_append_right p (mem_singleton_self k))⟩
  · intro p v hlook hv name hname
    have hmem := (hls.mem p v).mpr ⟨hlook, hv⟩
    have hkey := hassn _ (mem_map_of_mem (f := entryOf) hmem)
    rw [assignable, Bool.not_eq_true', any_eq_false, entryOf, hpath _ hmem] at hkey
    simpa using hkey name hname
  intro p v hlook hv
  have hmem := (hls.mem p v).mpr ⟨hlook, hv⟩
  obtain ⟨q, k, rfl⟩ := exists_concat_of_mem hls hmem
  obtain ⟨line, hline⟩ := hlines _ (pairLine_mem_lines hmem)
  have hwhole := ((readLine_pairLine_iff (ordered_of_lookup h hlook)).mp hline).1.2
  exact (plain_iff v).mpr ⟨hwhole, hvalue _ hmem⟩

end Necessary

/-- The writer and the reader agree on the trees that can be written. -/
theorem roundTrips_iff_writable (h : Ordered (.obj config)) :
  RoundTrips config ↔ Writable config
  := ⟨fun hread => hread.writable h, fun hw => hw.roundTrips h⟩

/-! ### What is read from a file is ordered -/

variable {v : Json}

theorem ordered_setInline
    {ms : List (String × Json)} (hms : Ordered (.obj ms)) (hv : Ordered v) (k : String) :
  Ordered (.obj (setInline ms k v))
  := by
  rw [setInline]
  split_ifs
  · exact hms
  · exact hms.setMember hv k

/-- The values scanned at a depth are ordered, if those are that have been scanned before. -/
structure ScansOrdered (n : ℕ) : Prop where
  value : ∀ s v t, scanTomlValue n s = some (v, t) → Ordered v
  members : ∀ ms s v t, Ordered (.obj ms) → scanTomlInlineTable n ms s = some (v, t) → Ordered v
  elements : ∀ xs s v t, Ordered (.arr xs) → scanTomlArray n xs s = some (v, t) → Ordered v

variable {s : List Char}

theorem scansOrdered_value {n : ℕ} (h : ScansOrdered n) {t : List Char}
    (hscan : scanTomlValue (n + 1) s = some (v, t)) :
  Ordered v
  := by
  have hnil : Ordered (.arr []) := ordered_arr_iff.mpr (forall_mem_nil _)
  rw [scanTomlValue] at hscan
  split at hscan
  · split at hscan
    · cases hscan
      exact ordered_nil
    · exact h.members _ _ _ _ ordered_nil hscan
  · split at hscan
    · cases hscan
      exact hnil
    · exact h.elements _ _ _ _ hnil hscan
  · obtain ⟨_, _, heq⟩ := Option.map_eq_some_iff.mp hscan
    obtain ⟨rfl, -⟩ := Prod.mk.inj heq
    exact True.intro
  · obtain ⟨_, _, heq⟩ := Option.map_eq_some_iff.mp hscan
    obtain ⟨rfl, -⟩ := Prod.mk.inj heq
    exact True.intro
  · obtain ⟨_, hparse, heq⟩ := Option.map_eq_some_iff.mp hscan
    obtain ⟨rfl, -⟩ := Prod.mk.inj heq
    exact parse_ordered hparse

theorem scansOrdered_members {n : ℕ} (h : ScansOrdered n) {ms : List (String × Json)}
    {t : List Char} (hms : Ordered (.obj ms))
    (hscan : scanTomlInlineTable (n + 1) ms s = some (v, t)) :
  Ordered v
  := by
  rw [scanTomlInlineTable] at hscan
  split at hscan
  · cases hscan
  rename_i k _ _
  split at hscan
  · split at hscan
    · cases hscan
    rename_i x u hx
    have hset := ordered_setInline hms (h.value _ _ _ hx) k
    split at hscan
    · exact h.members _ _ _ _ hset hscan
    · cases hscan
      exact hset
    · cases hscan
  · cases hscan

theorem scansOrdered_elements {n : ℕ} (h : ScansOrdered n) {xs : List Json} {t : List Char}
    (hxs : Ordered (.arr xs)) (hscan : scanTomlArray (n + 1) xs s = some (v, t)) :
  Ordered v
  := by
  rw [scanTomlArray] at hscan
  split at hscan
  · cases hscan
  rename_i x u hx
  have happ := hxs.append (h.value _ _ _ hx)
  split at hscan
  · exact h.elements _ _ _ _ happ hscan
  · cases hscan
    exact happ
  · cases hscan

theorem scansOrdered (n : ℕ) :
  ScansOrdered n
  := by
  induction n with
  | zero =>
    constructor
    · intro s v t h
      cases h
    · intro ms s v t _ h
      cases h
    · intro xs s v t _ h
      cases h
  | succ n ih =>
  constructor
  · intro s v t
    exact scansOrdered_value ih
  · intro ms s v t
    exact scansOrdered_members ih
  · intro xs s v t
    exact scansOrdered_elements ih

theorem parseTomlValue_ordered (h : parseTomlValue s = some v) :
  Ordered v
  := by
  rw [parseTomlValue] at h
  split at h
  · rename_i hparse
    cases h
    exact parse_ordered hparse
  split at h
  · cases h
  rename_i hscan
  split_ifs at h
  cases h
  exact (scansOrdered _).value _ _ _ hscan

theorem readLine_ordered {raw : List Char} {key : String} (h : readLine raw = .ok (.pair key v)) :
  Ordered v
  := by
  rw [readLine] at h
  split at h
  · cases h
  split at h
  · cases h
  split at h
  · cases h
  split at h
  · cases h
  · rename_i hvalue
    obtain ⟨-, rfl⟩ := Line.pair.inj (Except.ok.inj h)
    exact parseTomlValue_ordered hvalue

theorem parseLines_ordered
    {out w : Config} {names : List String} {ls : List (List Char)} (hout : Ordered (.obj out))
    (h : parseLines out names ls = .ok w) :
  Ordered (.obj w)
  := by
  induction ls generalizing out names with
  | nil =>
    cases h
    exact hout
  | cons raw rest ih =>
  rw [parseLines] at h
  split at h
  · cases h
  · exact ih hout h
  · exact ih hout h
  rename_i key value hread
  split at h
  · cases h
  rename_i out' hassn
  rw [assign] at hassn
  split_ifs at hassn
  cases hassn
  exact ih (ordered_setAt hout (readLine_ordered hread) _) h

/-- What is read from a file is ordered. -/
theorem parseTomlContent_ordered {text : List Char} (h : parseTomlContent text = .ok config) :
  Ordered (.obj config)
  := parseLines_ordered ordered_nil h

/-! ### Edits -/

/-- A name with a space, as it is read from a header, with its quotes. -/
def quotedTable : Config :=
  [("mcp", .obj [("\"a b\"", .obj [("on", .bool true)])])]

/-- What is read after `quotedTable` has been written. -/
def requotedTable : Config :=
  [("mcp", .obj [("\"\\\"a b\\\"\"", .obj [("on", .bool true)])])]

theorem serializeToml_quotedTable :
  serializeToml quotedTable =
    ['[', 'm', 'c', 'p', '.', '"', '\\', '"', 'a', ' ', 'b', '\\', '"', '"', ']', '\n',
      'o', 'n', ' ', '=', ' ', 't', 'r', 'u', 'e', '\n']
  := rfl

end Config.Toml
