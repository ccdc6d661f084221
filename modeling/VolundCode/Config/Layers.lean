import VolundCode.Config.Schema
import VolundCode.Lib.JsonPath

/-!
# The layers of the configuration

`loadConfig` assigns the values of its layers in turn, key by key: the defaults, the global
configuration, that of the project if it is trusted, the environment and the flags. A key that a
project may not set is passed over.

A key that a project may set can be above or below one that it may not set, and then a project
changes what is under the protected key (`not_unaffected`). A project leaves the protected keys
alone just if the last of its keys that touches a protected key, if there is one, is above it and
no configuration puts anything at or below that key (`unaffected_iff`).
-/

namespace Config

open Json List

/-! ### Loading -/

structure VolundError where
  code : String
  message : String
  deriving DecidableEq, Repr

/-- The key of a member under a prefix. -/
def joinKey (pre k : String) : String :=
  if pre = "" then k else pre ++ "." ++ k

mutual

/-- `flatten`: the values that are no objects, under their dotted keys. -/
def flatten : List (String × Json) → String → Config → Config
  | [], _, out => out
  | (k, v) :: ms, pre, out => flatten ms pre (flattenValue v (joinKey pre k) out)

/-- A value of a member. -/
def flattenValue : Json → String → Config → Config
  | .obj ms, key, out => flatten ms key out
  | v, key, out => setMember out key v

end

def forbiddenKeySegments : List String :=
  ["__proto__", "constructor", "prototype"]

/-- A key that can be assigned. -/
def assignable (key : String) : Bool :=
  !(segments key).any forbiddenKeySegments.contains

def assign (out : Config) (key : String) (value : Json) : Except VolundError Config :=
  if !assignable key then
    .error ⟨"config_invalid", "forbidden config key segment in '" ++ key ++ "'"⟩
  else .ok (setAt (segments key) value out)

/-- Entries are assigned in turn. -/
def assignAll (out : Config) : List (String × Json) → Except VolundError Config
  | [] => .ok out
  | (key, value) :: entries =>
    match assign out key value with
    | .error e => .error e
    | .ok out => assignAll out entries

/-- The entries of a layer that are assigned. -/
def entriesOf (project : Bool) (layer : Config) : List (String × Json) :=
  (flatten layer "" []).filter fun entry => !(project && isProjectOverrideForbidden entry.1)

def merge (out : Config) (layer : Option Config) (project : Bool) : Except VolundError Config :=
  assignAll out (entriesOf project (layer.getD []))

inductive TrustDecision where
  | allowProject
  | allowOnce
  | deny
  deriving DecidableEq, Repr

/-- The layers and what is decided about the project, with what the user answers if there is
someone to ask. -/
structure ConfigLayerOptions where
  defaults : Config
  global : Option Config
  project : Option Config
  env : Option Config
  flags : Option Config
  interactive : Option Bool
  trustProjectConfig : Bool
  previousProjectHash : Option String
  promptTrust : Option TrustDecision

structure LoadedConfig where
  config : Config
  projectHash : Option String
  trusted : Bool

section Loading

variable (sha256 : String → String)

/-- The hash of a project configuration. -/
def projectHash (project : Config) : String :=
  sha256 (String.ofList (stringify (.obj (flatten project "" []))))

/-- Whether a project configuration with this hash is trusted. -/
def trusts (o : ConfigLayerOptions) (hash : String) : Bool :=
  if o.trustProjectConfig then true
  else if o.interactive = some false then false
  else if some hash = o.previousProjectHash then true
  else o.promptTrust ≠ some .deny

/-- The project is merged if it is trusted. -/
def mergeProject (o : ConfigLayerOptions) (out : Config) : Except VolundError LoadedConfig :=
  match o.project with
  | none => .ok ⟨out, none, false⟩
  | some project =>
    let hash := projectHash sha256 project
    if trusts o hash then
      match merge out (some project) true with
      | .error e => .error e
      | .ok out => .ok ⟨out, some hash, true⟩
    else .ok ⟨out, some hash, false⟩

def loadConfig (o : ConfigLayerOptions) : Except VolundError LoadedConfig := do
  let out ← merge [] (some o.defaults) false
  let out ← merge out o.global false
  let loaded ← mergeProject sha256 o out
  let out ← merge loaded.config o.env false
  let out ← merge out o.flags false
  return { loaded with config := out }

end Loading

/-! ### Entries -/

theorem isObject_setMember {out : Config} {key : String} {v : Json}
    (hout : ∀ entry ∈ out, entry.2.isObject = false) (hv : v.isObject = false) :
  ∀ entry ∈ setMember out key v, entry.2.isObject = false
  := by
  intro entry hentry
  rcases mem_setMember hentry with rfl | hmem
  · apply hv
  · apply hout entry hmem

mutual

/-- No value of a flattened layer is an object. -/
theorem isObject_flatten : ∀ (ms : List (String × Json)) (pre : String) (out : Config),
    (∀ entry ∈ out, entry.2.isObject = false) →
    ∀ entry ∈ flatten ms pre out, entry.2.isObject = false
  | [], _, _, hout => hout
  | (k, v) :: ms, pre, out, hout =>
    isObject_flatten ms pre _ (isObject_flattenValue v (joinKey pre k) out hout)

theorem isObject_flattenValue : ∀ (v : Json) (key : String) (out : Config),
    (∀ entry ∈ out, entry.2.isObject = false) →
    ∀ entry ∈ flattenValue v key out, entry.2.isObject = false
  | .obj ms, key, out, hout => isObject_flatten ms key out hout
  | .null, _, _, hout | .bool _, _, _, hout | .num _, _, _, hout | .str _, _, _, hout
  | .arr _, _, _, hout => isObject_setMember hout rfl

end

/-- The paths and values that entries set. -/
def settings (entries : List (String × Json)) : List (Path × Json) :=
  entries.map fun entry => (segments entry.1, entry.2)

/-- The paths that a layer sets. -/
def pathsOf (project : Bool) (layer : Config) : List Path :=
  (entriesOf project layer).map fun entry => segments entry.1

theorem segments_ne_nil (key : String) :
  segments key ≠ []
  := by
  rw [segments]
  simp [splitOn_ne_nil]

theorem map_fst_settings (entries : List (String × Json)) :
  (settings entries).map Prod.fst = entries.map fun entry => segments entry.1
  := by
  rw [settings, map_map]
  rfl

theorem isObject_entriesOf (project : Bool) (layer : Config) :
  ∀ entry ∈ entriesOf project layer, entry.2.isObject = false
  := by
  intro entry hentry
  apply isObject_flatten layer "" [] (forall_mem_nil _) entry
  apply mem_of_mem_filter hentry

theorem assignAll_append (out : Config) (xs ys : List (String × Json)) :
  assignAll out (xs ++ ys) = (assignAll out xs).bind fun out => assignAll out ys
  := by
  induction xs generalizing out with
  | nil => rfl
  | cons entry xs ih =>
  rw [cons_append, assignAll, assignAll]
  cases assign out entry.1 entry.2 with
  | error e => rfl
  | ok out => exact ih out

/-- Entries are assigned just if each of their keys can be. -/
theorem assignAll_eq_ok_iff {out r : Config} {entries : List (String × Json)} :
  assignAll out entries = .ok r ↔ (∀ entry ∈ entries, assignable entry.1) ∧
      r = (settings entries).foldl (fun out q => setAt q.1 q.2 out) out
  := by
  induction entries generalizing out with
  | nil =>
    constructor
    · intro h
      cases h
      exact ⟨forall_mem_nil _, rfl⟩
    · rintro ⟨-, rfl⟩
      rfl
  | cons entry entries ih =>
  rw [assignAll, assign]
  cases hkey : assignable entry.1 with
  | false =>
    constructor
    · rintro ⟨⟩
    · rintro ⟨hall, -⟩
      rw [hall entry mem_cons_self] at hkey
      cases hkey
  | true =>
  rw [Bool.not_true, if_neg Bool.false_ne_true]
  dsimp only
  rw [ih, forall_mem_cons, hkey, eq_self_iff_true, true_and]
  rfl

/-! ### The result -/

section Result

variable (sha256 : String → String) (o : ConfigLayerOptions)

/-- The entries of the project that are assigned. -/
def projectEntries : List (String × Json) :=
  match o.project with
  | none => []
  | some project =>
    if trusts o (projectHash sha256 project) then entriesOf true project else []

/-- The entries that are assigned, layer by layer. -/
def allEntries : List (String × Json) :=
  entriesOf false o.defaults ++ (entriesOf false (o.global.getD []) ++ (projectEntries sha256 o ++
        (entriesOf false (o.env.getD []) ++ entriesOf false (o.flags.getD []))))

theorem mergeProject_eq (out : Config) :
  (mergeProject sha256 o out).map LoadedConfig.config = assignAll out (projectEntries sha256 o)
  := by
  rw [mergeProject, projectEntries]
  cases o.project with
  | none => rfl
  | some project =>
  dsimp only
  split_ifs
  · rw [merge, Option.getD_some]
    cases assignAll out (entriesOf true project) with
    | error e | ok out => rfl
  · rfl

/-- The result has the entries of all layers assigned in turn. -/
theorem loadConfig_eq :
  (loadConfig sha256 o).map LoadedConfig.config = assignAll [] (allEntries sha256 o)
  := by
  rw [allEntries, assignAll_append, loadConfig, merge, Option.getD_some]
  cases assignAll [] (entriesOf false o.defaults) with
  | error e => rfl
  | ok out =>
  change ((merge out o.global false).bind _).map _ = assignAll out _
  rw [assignAll_append, merge]
  cases assignAll out (entriesOf false (o.global.getD [])) with
  | error e => rfl
  | ok out =>
  change ((mergeProject sha256 o out).bind _).map _ = assignAll out _
  rw [assignAll_append, ← mergeProject_eq]
  cases mergeProject sha256 o out with
  | error e => rfl
  | ok loaded =>
  change ((merge loaded.config o.env false).bind _).map _ = assignAll loaded.config _
  rw [assignAll_append, merge]
  cases assignAll loaded.config (entriesOf false (o.env.getD [])) with
  | error e => rfl
  | ok out =>
  change ((merge out o.flags false).bind _).map _ = assignAll out _
  rw [merge]
  cases assignAll out (entriesOf false (o.flags.getD [])) with
  | error e | ok out => rfl

variable {sha256 o}

/-- What is found in the result at a path. -/
theorem lookup_loadConfig {r : LoadedConfig} (h : loadConfig sha256 o = .ok r) (key : String) :
  lookup (segments key) (.obj r.config) =
    Json.apply (segments key) none (settings (allEntries sha256 o))
  := by
  have hassn : assignAll [] (allEntries sha256 o) = .ok r.config := by
    rw [← loadConfig_eq, h]
    rfl
  obtain ⟨-, hconfig⟩ := assignAll_eq_ok_iff.mp hassn
  rw [hconfig, lookup_foldl_setAt, lookup_nil_object (segments_ne_nil key)]
  intro q hq
  obtain ⟨entry, -, rfl⟩ := mem_map.mp hq
  apply segments_ne_nil

/-- Layers with keys that can be assigned are loaded. -/
theorem exists_loadConfig (h : ∀ entry ∈ allEntries sha256 o, assignable entry.1) :
  ∃ r, loadConfig sha256 o = .ok r
  := by
  have hassn : assignAll [] (allEntries sha256 o) = .ok _ := assignAll_eq_ok_iff.mpr ⟨h, rfl⟩
  rw [← loadConfig_eq] at hassn
  cases hload : loadConfig sha256 o with
  | error e =>
    rw [hload] at hassn
    cases hassn
  | ok r =>
    use r

theorem assignable_of_loadConfig {r : LoadedConfig} (h : loadConfig sha256 o = .ok r) :
  ∀ entry ∈ allEntries sha256 o, assignable entry.1
  := by
  have hassn : assignAll [] (allEntries sha256 o) = .ok r.config := by
    rw [← loadConfig_eq, h]
    rfl
  apply (assignAll_eq_ok_iff.mp hassn).1

end Result

/-! ### Protected keys -/

section Protected

variable (isUrl : String → Bool) (sha256 : String → String)

/-- The layers beside that of the project are configurations. -/
structure LayersAccepted (o : ConfigLayerOptions) : Prop where
  defaults : Accepted isUrl o.defaults
  global : ∀ layer ∈ o.global, Accepted isUrl layer
  env : ∀ layer ∈ o.env, Accepted isUrl layer
  flags : ∀ layer ∈ o.flags, Accepted isUrl layer

/-- With the configuration of the project, trusted or not, the same is found at every protected key
as without it, whatever the other layers are. -/
def Unaffected (project : Config) : Prop :=
  ∀ (o : ConfigLayerOptions) (r r' : LoadedConfig), o.project = some project →
    LayersAccepted isUrl o → loadConfig sha256 o = .ok r →
    loadConfig sha256 { o with project := none } = .ok r' →
    ∀ key, isProjectOverrideForbidden key →
      lookup (segments key) (.obj r.config) = lookup (segments key) (.obj r'.config)

/-- A layer whose keys can be assigned. -/
def Assignable (project : Bool) (layer : Config) : Prop :=
  ∀ entry ∈ entriesOf project layer, assignable entry.1

/-- Of the keys of the project that are assigned the last one that touches a protected key, if
there is one, is above it, and no configuration puts anything at or below this key. -/
def Harmless (project : Config) : Prop :=
  ∀ key, isProjectOverrideForbidden key → lastTouch (segments key) (pathsOf true project) = none ∨
      lastTouch (segments key) (pathsOf true project) = some .takes ∧
        ∀ layer, Accepted isUrl layer → Assignable false layer →
          lastTouch (segments key) (pathsOf false layer) ≠ some .gives

variable {isUrl sha256}

theorem accepted_nil : Accepted isUrl [] :=
  ⟨[], rfl⟩

theorem accepted_getD {layer : Option Config} (h : ∀ l ∈ layer, Accepted isUrl l) :
  Accepted isUrl (layer.getD [])
  := by
  cases layer with
  | none => exact accepted_nil
  | some l => exact h l rfl

theorem settings_append (xs ys : List (String × Json)) :
  settings (xs ++ ys) = settings xs ++ settings ys
  := map_append

theorem isObject_settings {entries : List (String × Json)}
    (h : ∀ entry ∈ entries, entry.2.isObject = false) :
  ∀ q ∈ settings entries, q.2.isObject = false
  := by
  intro q hq
  obtain ⟨entry, hentry, rfl⟩ := mem_map.mp hq
  apply h entry hentry

variable {project : Config}

/-- A key that is not touched is found as without the project. -/
theorem unaffected_of_lastTouch_none {o : ConfigLayerOptions} {key : String}
    (hproj : o.project = some project)
    (h : lastTouch (segments key) (pathsOf true project) = none) :
  Json.apply (segments key) none (settings (allEntries sha256 o)) =
    Json.apply (segments key) none (settings (allEntries sha256 { o with project := none }))
  := by
  have hnone : ∀ x, Json.apply (segments key) x (settings (projectEntries sha256 o)) = x := by
    intro x
    rw [projectEntries, hproj]
    dsimp only
    split_ifs
    · apply apply_of_lastTouch_none
      rw [map_fst_settings]
      apply h
    · rfl
  simp only [allEntries, settings_append, apply_append, hnone]
  rfl

/-- Where no layer puts anything at or below a key, nothing is found there. -/
theorem lookup_none_of_ne {o : ConfigLayerOptions} {r : LoadedConfig} {key : String}
    (hload : loadConfig sha256 o = .ok r)
    (hlayers : ∀ layer, Accepted isUrl layer → Assignable false layer →
      lastTouch (segments key) (pathsOf false layer) ≠ some .gives)
    (hproj : lastTouch (segments key)
      ((projectEntries sha256 o).map fun entry => segments entry.1) ≠ some .gives)
    (hacc : LayersAccepted isUrl o) :
  lookup (segments key) (.obj r.config) = none
  := by
  have hassn := assignable_of_loadConfig hload
  rw [allEntries] at hassn
  obtain ⟨hd, hassn⟩ := forall_mem_append.mp hassn
  obtain ⟨hg, hassn⟩ := forall_mem_append.mp hassn
  obtain ⟨-, hassn⟩ := forall_mem_append.mp hassn
  obtain ⟨he, hf⟩ := forall_mem_append.mp hassn
  rw [lookup_loadConfig hload]
  apply apply_none_of_lastTouch_ne
  · apply isObject_settings
    intro entry hentry
    rw [allEntries, projectEntries] at hentry
    simp only [mem_append] at hentry
    rcases hentry with hentry | hentry | hentry | hentry | hentry
    · apply isObject_entriesOf _ _ entry hentry
    · apply isObject_entriesOf _ _ entry hentry
    · split at hentry
      · cases hentry
      · split_ifs at hentry
        · apply isObject_entriesOf _ _ entry hentry
        · cases hentry
    all_goals apply isObject_entriesOf _ _ entry hentry
  rw [map_fst_settings, allEntries]
  simp only [map_append]
  apply lastTouch_append_ne (hlayers _ hacc.defaults hd)
  apply lastTouch_append_ne (hlayers _ (accepted_getD hacc.global) hg)
  apply lastTouch_append_ne hproj
  apply lastTouch_append_ne (hlayers _ (accepted_getD hacc.env) he)
  apply hlayers _ (accepted_getD hacc.flags) hf

/-- A harmless project leaves the protected keys alone. -/
theorem Harmless.unaffected
    (h : Assignable true project → Harmless isUrl project) :
  Unaffected isUrl sha256 project
  := by
  intro o r r' hproj hacc hload hload' key hkey
  cases htrust : trusts o (projectHash sha256 project) with
  | false =>
    have hnone : projectEntries sha256 o = [] := by
      rw [projectEntries, hproj]
      dsimp only
      rw [htrust, if_neg Bool.false_ne_true]
    rw [lookup_loadConfig hload, lookup_loadConfig hload', allEntries, hnone]
    rfl
  | true =>
  have hents : projectEntries sha256 o = entriesOf true project := by
    rw [projectEntries, hproj]
    dsimp only
    rw [htrust, if_pos rfl]
  have hassn : Assignable true project := by
    intro entry hentry
    apply assignable_of_loadConfig hload
    rw [allEntries, hents]
    simp only [mem_append]
    exact Or.inr (Or.inr (Or.inl hentry))
  rcases h hassn key hkey with hnone | ⟨htakes, hlayers⟩
  · rw [lookup_loadConfig hload, lookup_loadConfig hload']
    apply unaffected_of_lastTouch_none hproj hnone
  have hacc' : LayersAccepted isUrl { o with project := none } :=
    ⟨hacc.defaults, hacc.global, hacc.env, hacc.flags⟩
  have hwith : lookup (segments key) (.obj r.config) = none := by
    apply lookup_none_of_ne hload hlayers _ hacc
    rw [hents]
    change lastTouch (segments key) (pathsOf true project) ≠ some .gives
    rw [htakes]
    rintro ⟨⟩
  have hwithout : lookup (segments key) (.obj r'.config) = none := by
    apply lookup_none_of_ne hload' hlayers _ hacc'
    rintro ⟨⟩
  rw [hwith, hwithout]

/-- A trusted project over one other layer. -/
def stacked (layer project : Option Config) : ConfigLayerOptions where
  defaults := []
  global := layer
  project := project
  env := none
  flags := none
  interactive := none
  trustProjectConfig := true
  previousProjectHash := none
  promptTrust := none

theorem allEntries_stacked (layer project : Config) :
  allEntries sha256 (stacked (some layer) (some project)) =
    entriesOf false layer ++ entriesOf true project
  := by
  change [] ++ (entriesOf false layer ++ (entriesOf true project ++ ([] ++ []))) = _
  rw [nil_append, append_nil, append_nil]

theorem allEntries_alone (layer : Config) :
  allEntries sha256 (stacked (some layer) none) = entriesOf false layer
  := by
  change [] ++ (entriesOf false layer ++ ([] ++ ([] ++ []))) = _
  simp only [nil_append, append_nil]

/-- A project that can be assigned and leaves the protected keys alone over each configuration does
not decide alone whether there is anything at one. -/
theorem isSome_eq_of_unaffected {layer : Config} {key : String}
    (h : Unaffected isUrl sha256 project) (hlayer : Accepted isUrl layer)
    (hassn : Assignable false layer) (hproj : Assignable true project)
    (hkey : isProjectOverrideForbidden key) :
  (Json.apply (segments key) none (settings (entriesOf false layer ++ entriesOf true project))
    ).isSome =
    (Json.apply (segments key) none (settings (entriesOf false layer))).isSome
  := by
  obtain ⟨r, hr⟩ : ∃ r, loadConfig sha256 (stacked (some layer) (some project)) = .ok r := by
    apply exists_loadConfig
    rw [allEntries_stacked]
    apply forall_mem_append.mpr ⟨hassn, hproj⟩
  obtain ⟨r', hr'⟩ : ∃ r', loadConfig sha256 (stacked (some layer) none) = .ok r' := by
    apply exists_loadConfig
    rw [allEntries_alone]
    apply hassn
  have hacc : LayersAccepted isUrl (stacked (some layer) (some project)) := by
    refine ⟨accepted_nil, ?_, ?_, ?_⟩
    · intro l hl
      cases hl
      apply hlayer
    all_goals
      intro l hl
      cases hl
  have hsame := h (stacked (some layer) (some project)) r r' rfl hacc hr hr' key hkey
  rw [lookup_loadConfig hr, lookup_loadConfig hr', allEntries_stacked, allEntries_alone] at hsame
  rw [hsame]

/-- A project that leaves the protected keys alone is harmless. -/
theorem Unaffected.harmless (h : Unaffected isUrl sha256 project)
    (hproj : Assignable true project) :
  Harmless isUrl project
  := by
  intro key hkey
  have hleaf : ∀ layer, ∀ q ∈ settings (entriesOf false layer ++ entriesOf true project),
      q.2.isObject = false := by
    intro layer
    apply isObject_settings
    intro entry hentry
    rcases mem_append.mp hentry with hentry | hentry
    all_goals apply isObject_entriesOf _ _ entry hentry
  cases hlast : lastTouch (segments key) (pathsOf true project) with
  | none =>
    left
    rfl
  | some t =>
  cases t with
  | gives =>
    have hsome := isSome_eq_of_unaffected h accepted_nil (forall_mem_nil _) hproj
      hkey
    have hgives : lastTouch (segments key)
        ((settings (entriesOf false [] ++ entriesOf true project)).map Prod.fst) =
        some .gives := by
      rw [map_fst_settings]
      apply hlast
    rw [isSome_apply (hleaf []), hgives] at hsome
    cases hsome
  | takes =>
  right
  use rfl
  intro layer hlayer hassn hgives
  have hsome := isSome_eq_of_unaffected h hlayer hassn hproj hkey
  have htakes : lastTouch (segments key)
      ((settings (entriesOf false layer ++ entriesOf true project)).map Prod.fst) =
      some .takes := by
    rw [map_fst_settings, map_append, lastTouch_append]
    change (lastTouch (segments key) (pathsOf true project)).or _ = _
    rw [hlast]
    rfl
  have halone : lastTouch (segments key)
      ((settings (entriesOf false layer)).map Prod.fst) = some .gives := by
    rw [map_fst_settings]
    apply hgives
  rw [isSome_apply (hleaf layer), htakes,
    isSome_apply (isObject_settings (isObject_entriesOf _ _)), halone] at hsome
  cases hsome

/-- A project leaves the protected keys alone just if it is harmless or cannot be assigned. -/
theorem unaffected_iff
    (isUrl : String → Bool) (sha256 : String → String) (project : Config) :
  Unaffected isUrl sha256 project ↔ (Assignable true project → Harmless isUrl project)
  := by
  constructor
  · intro h hproj
    apply h.harmless hproj
  · apply Harmless.unaffected

end Protected

/-- A project that says something about the key `context.search`, below which there is an address
in the global configuration. -/
def sampleProject : Config :=
  [("context", .obj [("search", .bool true)])]

def sampleGlobal : Config :=
  [("context", .obj [("search", .obj [("endpoint", .str "https://search")])])]

/-- A project takes away an address of the global configuration. -/
theorem not_unaffected :
  ¬ ∀ isUrl sha256 project, Accepted isUrl project → Unaffected isUrl sha256 project
  := by
  intro h
  have hunaff := h (fun _ => true) id sampleProject ⟨sampleProject, rfl⟩
  have hglobal : Accepted (fun _ => true) sampleGlobal := ⟨sampleGlobal, rfl⟩
  have hassn : Assignable false sampleGlobal := by
    change ∀ entry ∈ entriesOf false sampleGlobal, _
    decide +kernel
  have hproj : Assignable true sampleProject := by
    change ∀ entry ∈ entriesOf true sampleProject, _
    decide +kernel
  have hkey : isProjectOverrideForbidden "context.search.endpoint" := by
    decide +kernel
  have hsome := isSome_eq_of_unaffected hunaff hglobal hassn hproj hkey
  revert hsome
  decide +kernel

/-! ### Layers above others -/

/-- The layer gives the key, or one above it, a value. -/
def Settles (key : String) (layer : Option Config) : Prop :=
  ∃ entry ∈ entriesOf false (layer.getD []), segments entry.1 <+: segments key

/-- What the flags settle is found whatever the other layers are and whether the project is trusted
or not; what the environment settles is found whatever the layers below it are. -/
theorem lookup_eq_of_settles {sha256 : String → String} {o o' : ConfigLayerOptions}
    {r r' : LoadedConfig} (hload : loadConfig sha256 o = .ok r)
    (hload' : loadConfig sha256 o' = .ok r') (hflags : o'.flags = o.flags) {key : String}
    (h : Settles key o.flags ∨ o'.env = o.env ∧ Settles key o.env) :
  lookup (segments key) (.obj r'.config) = lookup (segments key) (.obj r.config)
  := by
  rw [lookup_loadConfig hload, lookup_loadConfig hload']
  simp only [allEntries, settings_append, apply_append, hflags]
  rcases h with ⟨entry, hentry, hpre⟩ | ⟨henv, entry, hentry, hpre⟩
  · exact apply_below (mem_map_of_mem hentry) hpre _ _
  · rw [henv]
    congr 1
    exact apply_below (mem_map_of_mem hentry) hpre _ _

/-- An address that the flags give, and a project that takes it away. -/
theorem lookup_eq_of_settles_sampleGlobal :
  ∃ r r', loadConfig id { stacked none none with flags := some sampleGlobal } = .ok r ∧
    loadConfig id { stacked none (some sampleProject) with flags := some sampleGlobal } =
      .ok r' ∧
    lookup (segments "context.search.endpoint") (.obj r'.config) =
      lookup (segments "context.search.endpoint") (.obj r.config)
  := by
  obtain ⟨r, hr⟩ := @exists_loadConfig id
    { stacked none none with flags := some sampleGlobal } (by decide +kernel)
  obtain ⟨r', hr'⟩ := @exists_loadConfig id
    { stacked none (some sampleProject) with flags := some sampleGlobal } (by decide +kernel)
  refine ⟨r, r', hr, hr', lookup_eq_of_settles hr hr' rfl (.inl ?_)⟩
  change ∃ entry ∈ entriesOf false sampleGlobal, _
  decide +kernel

end Config
