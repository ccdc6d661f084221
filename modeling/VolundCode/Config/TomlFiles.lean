import VolundCode.Config.TomlQuotes
import VolundCode.Lib.JsonLeaves

/-!
# The lines of a configuration file in turn

A file is read if every line of it is and if the entries of its pairs can be assigned
(`parseLines_eq_ok_iff`). The lines that are written for a tree are read as one entry for each of
its leaves, in the order in which they are written, under a key that depends on its path
(`runLines_lines`).
-/

namespace Config.Toml

open Json List

/-! ### The lines in turn -/

/-- The names of the last header and the entries of the lines, if all of them are read. -/
def runLines (names : List String) :
    List (List Char) → Option (List String × List (String × Json))
  | [] => some (names, [])
  | raw :: rest =>
    match readLine raw with
    | .error _ => none
    | .ok .blank => runLines names rest
    | .ok (.header names) => runLines names rest
    | .ok (.pair key value) =>
      (runLines names rest).map fun (names', entries) =>
        (names', (dottedKey names key, value) :: entries)

variable {names : List String} {ls : List (List Char)}

/-- The lines are parsed just if all of them are read and their entries can be assigned. -/
theorem parseLines_eq_ok_iff {out w : Config} :
  parseLines out names ls = .ok w ↔ ∃ names' entries, runLines names ls = some (names', entries) ∧
      assignAll out entries = .ok w
  := by
  induction ls generalizing out names with
  | nil =>
    constructor
    · intro h
      exact ⟨names, [], rfl, h⟩
    · rintro ⟨_, _, hrun, hassn⟩
      cases hrun
      exact hassn
  | cons raw rest ih =>
  rw [parseLines, runLines]
  cases hread : readLine raw with
  | error e =>
    constructor
    · rintro ⟨⟩
    · rintro ⟨_, _, ⟨⟩, _⟩
  | ok l =>
  cases l with
  | blank | header names => exact ih
  | pair key value =>
  dsimp only
  constructor
  · intro h
    cases hassn : assign out (dottedKey names key) value with
    | error e =>
      rw [hassn] at h
      cases h
    | ok out' =>
    rw [hassn] at h
    obtain ⟨names', entries, hrun, hrest⟩ := ih.mp h
    use names', (dottedKey names key, value) :: entries
    rw [hrun, assignAll, hassn]
    exact ⟨rfl, hrest⟩
  rintro ⟨names', entries, hrun, hassn⟩
  obtain ⟨⟨names'', entries'⟩, hrun', heq⟩ := Option.map_eq_some_iff.mp hrun
  obtain ⟨rfl, rfl⟩ := Prod.mk.inj heq
  rw [assignAll] at hassn
  cases hfirst : assign out (dottedKey names key) value with
  | error e =>
    rw [hfirst] at hassn
    cases hassn
  | ok out' =>
    rw [hfirst] at hassn
    exact ih.mpr ⟨_, _, hrun', hassn⟩

theorem runLines_append (ls ms : List (List Char)) :
  runLines names (ls ++ ms) = (runLines names ls).bind fun (names', entries) =>
      (runLines names' ms).map fun (names'', entries') => (names'', entries ++ entries')
  := by
  induction ls generalizing names with
  | nil =>
    rw [nil_append, runLines, Option.bind_some]
    dsimp only
    cases runLines names ms with
    | none | some r => rfl
  | cons raw rest ih =>
  rw [cons_append, runLines, runLines]
  split
  · rfl
  · exact ih
  · exact ih
  rw [ih]
  cases runLines names rest with
  | none => rfl
  | some r =>
  obtain ⟨names', entries⟩ := r
  rw [Option.bind_some, Option.map_some, Option.bind_some]
  dsimp only
  cases runLines names' ms with
  | none | some r => rfl

theorem readLine_nil :
  readLine [] = .ok .blank
  := rfl

theorem runLines_nil_cons (names : List String) (ls : List (List Char)) :
  runLines names ([] :: ls) = runLines names ls
  := by
  rw [runLines, readLine_nil]

theorem runLines_concat_nil (names : List String) (ls : List (List Char)) :
  runLines names (ls ++ [[]]) = runLines names ls
  := by
  rw [runLines_append]
  cases runLines names ls with
  | none => rfl
  | some r =>
  obtain ⟨names', entries⟩ := r
  rw [Option.bind_some]
  dsimp only
  rw [runLines_nil_cons, runLines, Option.map_some]
  dsimp only
  rw [append_nil]

/-- Line feeds at the start of a text do not matter. -/
theorem runLines_dropWhile (names : List String) (s : List Char) :
  runLines names ((s.dropWhile (· = '\n')).splitOn '\n') = runLines names (s.splitOn '\n')
  := by
  induction s with
  | nil => rfl
  | cons c s ih =>
  rw [dropWhile_cons]
  by_cases hc : c = '\n'
  · rw [if_pos (decide_eq_true hc), ih, hc, splitOn_cons_eq_if_modifyHead,
      if_pos (beq_self_eq_true _), runLines_nil_cons]
  · rw [if_neg (by simpa using hc)]

/-- The lines of a text that was joined and written. -/
theorem runLines_join (h : ∀ l ∈ ls, '\n' ∉ l) :
  runLines [] ((((['\n'].intercalate ls).dropWhile (· = '\n')) ++ ['\n']).splitOn '\n') =
    runLines [] ls
  := by
  rw [splitOn_append_cons_self, splitOn_nil, runLines_concat_nil, runLines_dropWhile]
  cases ls with
  | nil => exact runLines_nil_cons [] []
  | cons l ls => rw [splitOn_intercalate _ h (cons_ne_nil l ls)]

/-- All lines of which each can be read are read. -/
theorem exists_runLines (h : ∀ l ∈ ls, ∃ line, readLine l = .ok line) (names : List String) :
  ∃ r, runLines names ls = some r
  := by
  induction ls generalizing names with
  | nil => exact ⟨_, rfl⟩
  | cons raw rest ih =>
  obtain ⟨⟨line, hline⟩, hrest⟩ := forall_mem_cons.mp h
  rw [runLines, hline]
  cases line with
  | blank | header names => exact ih hrest names
  | pair key value =>
    obtain ⟨r, hr⟩ := ih hrest names
    exact ⟨_, congrArg (Option.map _) hr⟩

variable {r : List String × List (String × Json)}

/-- Of lines that are read each can be read. -/
theorem readLine_of_runLines
    (h : runLines names ls = some r) :
  ∀ l ∈ ls, ∃ line, readLine l = .ok line
  := by
  induction ls generalizing names r with
  | nil => exact forall_mem_nil _
  | cons raw rest ih =>
  rw [runLines] at h
  rw [forall_mem_cons]
  cases hline : readLine raw with
  | error e =>
    rw [hline] at h
    cases h
  | ok line =>
  rw [hline] at h
  refine ⟨⟨line, rfl⟩, ?_⟩
  cases line with
  | blank | header names => exact ih h
  | pair key value =>
    obtain ⟨r, hr, -⟩ := Option.map_eq_some_iff.mp h
    exact ih hr

/-! ### Pairs and tables -/

/-- A pair is read just if there is no quote in its key and no line separator in its value. -/
theorem readLine_pairLine_iff {m : String × Json} (hm : Ordered m.2) {l : Line} :
  readLine (pairLine m) = .ok l ↔
    ('"' ∉ m.1.toList ∧ Lines.Unbroken (tomlValue m.2)) ∧ l = .pair (keyRead m.1) (reread m.2)
  := by
  by_cases hquote : '"' ∈ m.1.toList
  · constructor
    · intro h
      exact absurd h (readLine_quote hquote l)
    · rintro ⟨⟨hkey, -⟩, -⟩
      exact absurd hquote hkey
  rw [readLine_pairLine hquote hm]
  split_ifs with hvalue
  · constructor
    · intro h
      exact ⟨⟨hquote, hvalue⟩, (Except.ok.inj h).symm⟩
    · rintro ⟨-, rfl⟩
      rfl
  constructor
  · rintro ⟨⟩
  · rintro ⟨⟨-, h⟩, -⟩
    exact absurd h hvalue

/-- What the pairs of a table are read as, below a header. -/
theorem runLines_pairLines
    {ms : List (String × Json)}
    (hms : ∀ m ∈ ms, Ordered m.2) (h : runLines names (ms.map pairLine) = some r) :
  r = (names, ms.map fun m => (dottedKey names (keyRead m.1), reread m.2))
  := by
  induction ms generalizing r with
  | nil => exact (Option.some.inj h).symm
  | cons m ms ih =>
  obtain ⟨hm, hms⟩ := forall_mem_cons.mp hms
  obtain ⟨line, hline⟩ := readLine_of_runLines h _ mem_cons_self
  rw [map_cons, runLines, hline] at h
  obtain ⟨-, rfl⟩ := (readLine_pairLine_iff hm).mp hline
  obtain ⟨r', hr', rfl⟩ := Option.map_eq_some_iff.mp h
  rw [ih hms hr']
  rfl

mutual

/-- The leaves of a value at a path, in the order in which they are written. -/
def leavesAt (p : Path) : Json → List (Path × Json)
  | .obj ms => (scalarsOf ms).map (fun m => (p ++ [m.1], m.2)) ++ leavesBelow p ms
  | _ => []

/-- The leaves of the tables among members. -/
def leavesBelow (p : Path) : List (String × Json) → List (Path × Json)
  | [] => []
  | (k, v) :: ms => leavesAt (p ++ [k]) v ++ leavesBelow p ms

end

/-- The names that are read for those of a table. -/
def tableNames (p : Path) : List String :=
  if p = [] then [] else headerNames (joinDots p)

/-- The dotted key under which a leaf is read. -/
def writtenKey (p : Path) : String :=
  dottedKey (tableNames p.dropLast) (keyRead (p.getLastD ""))

/-- The entry of a leaf. -/
def entryOf (leaf : Path × Json) : String × Json :=
  (writtenKey leaf.1, reread leaf.2)

theorem joinDots_concat {p : Path} (hp : p ≠ []) (k : String) :
  joinDots (p ++ [k]) = joinDots p ++ "." ++ k
  := by
  have hne : p.map String.toList ≠ [] := by simpa using hp
  rw [joinDots, joinDots, map_append, map_singleton, Splitting.intercalate_concat hne,
    String.ofList_append, String.ofList_append, String.ofList_toList, String.append_assoc]

theorem joinDots_singleton (k : String) :
  joinDots [k] = k
  := by
  simp [joinDots, List.intercalate]

theorem headerLines_eq (path : String) (table : List (String × Json)) :
  headerLines path table =
    if scalarsOf table ≠ [] ∨ nestedOf table = [] then [[], headerLine path] else []
  := rfl

/-- The names below a header that is read. -/
theorem runLines_headerLines
    {path : String} {table : List (String × Json)}
    (h : runLines names (headerLines path table) = some r) :
  r = (if scalarsOf table ≠ [] ∨ nestedOf table = [] then headerNames path else names, [])
  := by
  rw [headerLines_eq] at h
  split_ifs at h ⊢ with hheader
  · obtain ⟨line, hline⟩ := readLine_of_runLines h _ (mem_cons_of_mem [] (mem_singleton_self _))
    obtain rfl := readLine_headerLine hline
    rw [runLines_nil_cons, runLines, hline] at h
    exact (Option.some.inj h).symm
  · exact (Option.some.inj h).symm

/-- The parts of a text that is read. -/
theorem runLines_append_eq_some
    {ms : List (List Char)} (h : runLines names (ls ++ ms) = some r) :
  ∃ names' entries r', runLines names ls = some (names', entries) ∧
    runLines names' ms = some r' ∧ r.2 = entries ++ r'.2
  := by
  rw [runLines_append] at h
  obtain ⟨⟨names', entries⟩, hls, hms⟩ := Option.bind_eq_some_iff.mp h
  obtain ⟨r', hr', rfl⟩ := Option.map_eq_some_iff.mp hms
  exact ⟨names', entries, r', hls, hr', rfl⟩

theorem mem_scalarsOf {ms : List (String × Json)} {m : String × Json} :
  m ∈ scalarsOf ms ↔ m ∈ ms ∧ m.2.isObject = false
  := by
  rw [scalarsOf, mem_filter, Bool.not_eq_true']

mutual

/-- What the lines of a table are read as. -/
theorem runLines_emitTable : ∀ (v : Json) {p : Path} {names : List String}
    {r : List String × List (String × Json)}, Ordered v → p ≠ [] →
    runLines names (emitTable (joinDots p) v) = some r → r.2 = (leavesAt p v).map entryOf
  | .obj ms, p, names, r, hv, hp, h => by
      have hmems := (ordered_obj_iff.mp hv).2
      rw [emitTable] at h
      obtain ⟨names₁, entries₁, r₁, h₁, hnested, hr⟩ := runLines_append_eq_some h
      obtain ⟨names₂, entries₂, r₂, hheader, hscalars, heq⟩ := runLines_append_eq_some h₁
      obtain ⟨rfl, rfl⟩ := Prod.mk.inj (runLines_headerLines hheader)
      rw [runLines_pairLines (fun m hm => hmems m (mem_scalarsOf.mp hm).1) hscalars] at heq
      dsimp only at heq
      rw [leavesAt, map_append, hr, heq, nil_append, map_map,
        runLines_emitNested ms hmems (fun k => (joinDots_concat hp k).symm) hnested]
      congr 1
      apply map_congr_left
      intro m hm
      rw [if_pos (Or.inl (ne_nil_of_mem hm)), Function.comp, entryOf, writtenKey,
        dropLast_concat, getLastD_concat, tableNames, if_neg hp]
  | .null, _, _, _, _, _, h | .bool _, _, _, _, _, _, h | .num _, _, _, _, _, _, h
  | .str _, _, _, _, _, _, h | .arr _, _, _, _, _, _, h => by
      cases h
      rfl

/-- What the lines of the tables in a table are read as. -/
theorem runLines_emitNested : ∀ (ms : List (String × Json)) {p : Path} {pre : String}
    {names : List String} {r : List String × List (String × Json)}, (∀ m ∈ ms, Ordered m.2) →
    (∀ k, pre ++ k = joinDots (p ++ [k])) → runLines names (emitNested pre ms) = some r →
    r.2 = (leavesBelow p ms).map entryOf
  | [], _, _, _, _, _, _, h => by
      cases h
      rfl
  | (k, v) :: ms, p, pre, names, r, hms, hpre, h => by
      obtain ⟨hv, hms⟩ := forall_mem_cons.mp hms
      rw [emitNested, hpre] at h
      obtain ⟨names₁, entries₁, r₁, hfirst, hrest, hr⟩ := runLines_append_eq_some h
      rw [leavesBelow, map_append, hr, runLines_emitNested ms hms hpre hrest,
        ← runLines_emitTable v hv (by simp) hfirst]

end

/-- The leaves of a tree in the order in which they are written. -/
def leavesOf (config : Config) : List (Path × Json) :=
  leavesAt [] (.obj config)

/-- The lines of a file are read as one entry for each leaf. -/
theorem runLines_lines
    {config : Config} (h : Ordered (.obj config)) (hrun : runLines [] (lines config) = some r) :
  r.2 = (leavesOf config).map entryOf
  := by
  have hmems := (ordered_obj_iff.mp h).2
  obtain ⟨names₁, entries₁, r₁, hscalars, hnested, hr⟩ := runLines_append_eq_some hrun
  have heq := runLines_pairLines (fun m hm => hmems m (mem_scalarsOf.mp hm).1) hscalars
  obtain ⟨rfl, rfl⟩ := Prod.mk.inj heq
  have hpre : ∀ k, "" ++ k = joinDots ([] ++ [k]) := by
    intro k
    rw [nil_append, joinDots_singleton, String.empty_append]
  rw [leavesOf, leavesAt, map_append, hr, map_map,
    runLines_emitNested config (p := []) hmems hpre hnested]
  rfl

end Config.Toml
