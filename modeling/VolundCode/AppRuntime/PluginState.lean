import Mathlib.Logic.Function.Basic
import VolundCode.Lib.Json
import VolundCode.Lib.Members

/-!
# The plugin state store

The calls of `LocalPluginStateStore`, cut at every wait: for the file to be loaded, for the entry
that `require` has read, and for the directory, the temporary file and the rename of `persist`. The
calls overlap in any way, and every operation on the disk can fail.

What is written to the file is parsed to the entries again (`parseState_stateJson`).
-/

namespace AppRuntime.PluginState

/-! ### Entries -/

inductive LocalPluginSource where
  | builtin
  | dev
  | market
  deriving DecidableEq

/-- What of a manifest is kept or hashed. -/
structure PluginManifest where
  name : String
  version : String
  permissions : Json
  ui : Option Json

/-- What is hashed with SHA-256. -/
def permissionText (manifest : PluginManifest) : List Char :=
  Json.stringify (.obj [("permissions", manifest.permissions), ("ui", manifest.ui.getD (.arr []))])

/-- The source of an entry: a name, or what the file has instead if `String` makes it a name. -/
inductive EntrySource where
  | named (source : LocalPluginSource)
  | other (value : Json)

structure LocalPluginStateEntry where
  name : String
  version : String
  source : EntrySource
  dir : String
  permissionHash : String
  approvedVersion : Option String
  approvedPermissionHash : Option String
  enabled : Bool
  failures : ℕ

abbrev Plugins := List (String × LocalPluginStateEntry)

def isPluginApproved (entry : LocalPluginStateEntry) : Bool :=
  entry.approvedVersion = some entry.version &&
    entry.approvedPermissionHash = some entry.permissionHash

/-- `/^volund-plugin-[a-z0-9][a-z0-9._-]{0,127}$/`. -/
def isPluginName (name : String) : Bool :=
  let start := "volund-plugin-".toList
  let rest := name.toList.drop start.length
  name.toList.take start.length = start && 0 < rest.length && rest.length ≤ 128 &&
    rest.head?.all (fun c => c.isLower || c.isDigit) &&
    rest.all fun c => c.isLower || c.isDigit || c = '.' || c = '_' || c = '-'

/-- `/^[a-f0-9]{64}$/`. -/
def isSha256 (hash : String) : Bool :=
  hash.toList.length = 64 && hash.toList.all fun c => c.isDigit || ('a' ≤ c && c ≤ 'f')

def maxPlugins : ℕ := 1024

def maxSafeInteger : ℕ := 2 ^ 53 - 1

def LocalPluginSource.text : LocalPluginSource → String
  | .builtin => "builtin"
  | .dev => "dev"
  | .market => "market"

def LocalPluginSource.ofText (text : String) : Option LocalPluginSource :=
  if text = "builtin" then some .builtin
  else if text = "dev" then some .dev
  else if text = "market" then some .market
  else none

/-- Whether `String` makes the value the name of a source: a list of one value has the text of the
value. -/
def isSourceText : Json → Bool
  | .str s => (LocalPluginSource.ofText s).isSome
  | .arr [v] => isSourceText v
  | _ => false

/-- The source, if it is one. -/
def parseSource : Json → Option EntrySource
  | .str s => (LocalPluginSource.ofText s).map .named
  | v => if isSourceText v then some (.other v) else none

/-- `Number.isSafeInteger(value)` for a number that is not negative. -/
def parseFailures : Json → Option ℕ
  | .num d =>
    match d.integer with
    | some n => if 0 ≤ n ∧ n ≤ maxSafeInteger then some n.toNat else none
    | none => none
  | _ => none

/-- A member that is a string. -/
def parseString : Option Json → Option String
  | some (.str s) => some s
  | _ => none

/-- A member that is a truth value. -/
def parseBool : Option Json → Option Bool
  | some (.bool b) => some b
  | _ => none

/-- A member that is a string or not there. -/
def parseOptional : Option Json → Option (Option String)
  | none => some none
  | some (.str s) => some (some s)
  | some _ => none

/-- The entry, or `none` where the error `plugin_state_invalid` is thrown. -/
def parseEntry (name : String) : Json → Option LocalPluginStateEntry
  | .obj value => do
    let named ← parseString (Json.member value "name")
    let version ← parseString (Json.member value "version")
    let source ← (Json.member value "source").bind parseSource
    let dir ← parseString (Json.member value "dir")
    let permissionHash ← parseString (Json.member value "permissionHash")
    let enabled ← parseBool (Json.member value "enabled")
    let failures ← (Json.member value "failures").bind parseFailures
    let approvedVersion ← parseOptional (Json.member value "approvedVersion")
    let approvedPermissionHash ← parseOptional (Json.member value "approvedPermissionHash")
    if isPluginName name ∧ named = name ∧ dir ≠ "" ∧ isSha256 permissionHash ∧
        approvedPermissionHash.all isSha256 then
      some { name, version, source, dir, permissionHash, approvedVersion, approvedPermissionHash,
             enabled, failures }
    else none
  | _ => none

/-- The entries of a state file. -/
def parseState : Json → Option Plugins
  | .obj value => do
    let .num schemaVersion ← Json.member value "schemaVersion" | none
    let .obj plugins ← Json.member value "plugins" | none
    if schemaVersion.integer = some 2 ∧ plugins.length ≤ maxPlugins then
      plugins.mapM fun m => (parseEntry m.1 m.2).map (m.1, ·)
    else none
  | _ => none

def EntrySource.toJson : EntrySource → Json
  | .named source => .str source.text
  | .other value => value

def LocalPluginStateEntry.toJson (entry : LocalPluginStateEntry) : Json :=
  .obj ([("name", .str entry.name), ("version", .str entry.version),
    ("source", entry.source.toJson), ("dir", .str entry.dir),
    ("permissionHash", .str entry.permissionHash)] ++
    Json.optional "approvedVersion" (entry.approvedVersion.map .str) ++
    Json.optional "approvedPermissionHash" (entry.approvedPermissionHash.map .str) ++
    [("enabled", .bool entry.enabled), ("failures", .num (Decimal.make entry.failures 0))])

/-- The value that is written to the file. -/
def stateJson (plugins : Plugins) : Json :=
  .obj [("schemaVersion", .num (Decimal.make 2 0)),
    ("plugins", .obj (plugins.map fun m => (m.1, m.2.toJson)))]

/-! ### What is written is parsed again -/

/-- An entry under its name that the parser accepts. -/
structure Storable (name : String) (entry : LocalPluginStateEntry) : Prop where
  isName : isPluginName name
  named : entry.name = name
  source : ∀ value, entry.source = .other value → parseSource value = some (.other value)
  dir : entry.dir ≠ ""
  hash : isSha256 entry.permissionHash
  approved : entry.approvedPermissionHash.all isSha256
  failures : entry.failures ≤ maxSafeInteger

theorem parseSource_toJson {name : String} {entry : LocalPluginStateEntry}
    (h : Storable name entry) :
  parseSource entry.source.toJson = some entry.source
  := by
  cases hsrc : entry.source with
  | named source => cases source <;> rfl
  | other value => apply h.source value hsrc

theorem parseFailures_make {n : ℕ} (h : n ≤ maxSafeInteger) :
  parseFailures (.num (Decimal.make n 0)) = some n
  := by
  rw [parseFailures, Decimal.integer_make]
  have hbnd : 0 ≤ (n : ℤ) ∧ (n : ℤ) ≤ maxSafeInteger := by omega
  dsimp only
  rw [if_pos hbnd, Int.toNat_natCast]

theorem parseOptional_map (text : Option String) :
  parseOptional (text.map .str) = some text
  := by
  cases text <;> rfl

theorem parseEntry_toJson {name : String} {entry : LocalPluginStateEntry}
    (h : Storable name entry) :
  parseEntry name entry.toJson = some entry
  := by
  obtain rfl := h.named
  have hsrc := parseSource_toJson h
  have hfailures := parseFailures_make h.failures
  unfold LocalPluginStateEntry.toJson parseEntry
  simp [Json.member_append, Json.member_optional, Json.member_cons, Json.member_nil, hsrc,
    hfailures, parseOptional_map, parseString, parseBool]
  simp [h.isName, h.dir, h.hash, h.approved]

theorem parseSource_eq_other {v value : Json} (h : parseSource v = some (.other value)) :
  v = value
  := by
  unfold parseSource at h
  split at h
  · rw [Option.map_eq_some_iff] at h
    obtain ⟨_, -, h⟩ := h
    cases h
  · split_ifs at h
    cases h
    rfl

theorem parseFailures_le {v : Json} {n : ℕ} (h : parseFailures v = some n) :
  n ≤ maxSafeInteger
  := by
  unfold parseFailures at h
  split at h
  · split at h
    · split_ifs at h with hbnd
      cases h
      omega
    · cases h
  · cases h

/-- An entry that the parser accepts can be stored again. -/
theorem storable_of_parseEntry {name : String} {v : Json} {entry : LocalPluginStateEntry}
    (h : parseEntry name v = some entry) :
  Storable name entry
  := by
  unfold parseEntry at h
  split at h
  next value =>
    simp only [Option.bind_eq_bind, Option.bind_eq_some_iff] at h
    obtain ⟨named, -, version, -, source, ⟨v, -, hsrc⟩, dir, -, hash, -, enabled, -, failures,
      ⟨w, -, hfailures⟩, _, -, _, -, h⟩ := h
    split_ifs at h with hvalid
    obtain ⟨hname, hnamed, hdir, hhash, happr⟩ := hvalid
    cases h
    constructor
    · apply hname
    · rfl
    · rintro value rfl
      obtain rfl := parseSource_eq_other hsrc
      apply hsrc
    · apply hdir
    · apply hhash
    · apply happr
    · apply parseFailures_le hfailures
  · cases h

/-- What is written is parsed to the entries. -/
theorem parseState_stateJson {plugins : Plugins} (hlen : plugins.length ≤ maxPlugins)
    (h : ∀ m ∈ plugins, Storable m.1 m.2) :
  parseState (stateJson plugins) = some plugins
  := by
  have hents : (plugins.map fun m => (m.1, m.2.toJson)).mapM
      (fun m => (parseEntry m.1 m.2).map (m.1, ·)) = some plugins := by
    clear hlen
    induction plugins with
    | nil => rfl
    | cons m plugins ih =>
      rw [List.map_cons, List.mapM_cons, parseEntry_toJson (h m List.mem_cons_self),
        ih fun n hn => h n (List.mem_cons_of_mem m hn)]
      rfl
  have hlen' : (plugins.map fun m => (m.1, m.2.toJson)).length ≤ maxPlugins := by
    rw [List.length_map]
    apply hlen
  unfold stateJson parseState
  simp only [Json.member_cons, Json.member_nil]
  simp only [String.reduceEq, if_true, if_false]
  rw [← hents]
  apply if_pos ⟨Decimal.integer_make 2, hlen'⟩

/-! ### Calls -/

/-- The errors with which calls reject: of the load, of the checks, and of the disk. -/
inductive PluginError where
  | notLoaded
  | notInstalled (name : String)
  | approvalStale (name permissionHash : String)
  | approvalRequired (name version permissionHash : String)
  | io
  deriving DecidableEq

inductive Request where
  | init
  | discover (manifest : PluginManifest) (source : LocalPluginSource) (dir : String)
  | approve (name expectedPermissionHash : String)
  | setEnabled (name : String) (enabled : Bool)
  | remove (name : String)

/-- What a call waits for: the load, the entry that `require` has read, and in `persist` the
directory, the temporary file with the time in its name and what is written to it, and the rename;
with what it will answer. -/
inductive Stage where
  | initializing
  | required (entry : Option LocalPluginStateEntry)
  | directory (answer : Option LocalPluginStateEntry)
  | writing (answer : Option LocalPluginStateEntry) (temporary : ℕ) (content : Json)
  | renaming (answer : Option LocalPluginStateEntry) (temporary : ℕ)
  | settled (result : Except PluginError (Option LocalPluginStateEntry))

structure Call where
  request : Request
  stage : Stage

/-- The promise `ready`. -/
inductive Ready where
  | unasked
  | loading
  | loaded
  | failed
  deriving DecidableEq

/-- A file: the value its text is parsed to, or not a file of JSON. -/
inductive Contents where
  | value (v : Json)
  | unreadable

/-- A change of the entries. -/
inductive Change where
  | put (name : String) (entry : LocalPluginStateEntry)
  | delete (name : String)

def Change.apply (plugins : Plugins) : Change → Plugins
  | .put name entry => Members.put plugins name entry
  | .delete name => Members.erase plugins name

/-- What a manifest has determined of an entry. -/
structure Description where
  version : String
  source : EntrySource
  dir : String
  permissionHash : String

def LocalPluginStateEntry.description (entry : LocalPluginStateEntry) : Description where
  version := entry.version
  source := entry.source
  dir := entry.dir
  permissionHash := entry.permissionHash

/-- A call that has begun to write its temporary file. -/
structure Writing where
  call : ℕ
  temporary : ℕ
  content : Json

/-- The store, the disk, and the calls in the order in which they were made. The past is kept too:
the entries of the load, the changes with the calls that made them, the entries that calls have
read, what was last discovered of each plugin, and the files that have been begun and not been
renamed. -/
structure State where
  ready : Ready
  plugins : Plugins
  calls : List Call
  temporaries : ℕ → Option Contents
  file : Option Contents
  loaded : Plugins
  changes : List (ℕ × Change)
  found : List (ℕ × LocalPluginStateEntry)
  discovered : String → Option Description
  queue : List Writing

def start (file : Option Contents) : State where
  ready := .unasked
  plugins := []
  calls := []
  temporaries _ := none
  file := file
  loaded := []
  changes := []
  found := []
  discovered _ := none
  queue := []

/-- What the load makes of the file: without a file there are no entries. -/
def parseFile : Option Contents → Option Plugins
  | none => some []
  | some (.value v) => parseState v
  | some .unreadable => none

namespace State

/-- A call that is made: the first one begins the load. -/
def call (s : State) (request : Request) : State :=
  { s with
    calls := s.calls ++ [Call.mk request .initializing]
    ready := if s.ready = .unasked then .loading else s.ready }

/-- The load ends, or fails. -/
def load (s : State) (ok : Bool) : State :=
  match if ok then parseFile s.file else none with
  | none => { s with ready := .failed }
  | some plugins =>
    { s with
      ready := .loaded
      plugins := plugins
      loaded := plugins
      discovered := fun name => (Members.get plugins name).map (·.description) }

def setStage (s : State) (i : ℕ) (request : Request) (stage : Stage) : State :=
  { s with calls := s.calls.set i { request, stage } }

def settle (s : State) (i : ℕ) (request : Request)
    (result : Except PluginError (Option LocalPluginStateEntry)) : State :=
  s.setStage i request (.settled result)

/-- A change of the entries, with which `persist` begins. -/
def change (s : State) (i : ℕ) (request : Request) (change : Change)
    (answer : Option LocalPluginStateEntry) : State :=
  { s.setStage i request (.directory answer) with
    plugins := change.apply s.plugins
    changes := s.changes ++ [(i, change)] }

/-- `require` reads the entry. -/
def require (s : State) (i : ℕ) (request : Request) (name : String) : State :=
  { s.setStage i request (.required (Members.get s.plugins name)) with
    found := s.found ++ ((Members.get s.plugins name).map (i, ·)).toList }

end State

variable (sha256 : List Char → String)

/-- `permissionHash(manifest)`. -/
def permissionHash (manifest : PluginManifest) : String :=
  sha256 (permissionText manifest)

/-- Whether the entry was discovered from the source. -/
def EntrySource.is (source : EntrySource) (other : LocalPluginSource) : Bool :=
  match source with
  | .named source => source = other
  | .other _ => false

/-- The entry that `discover` makes of the previous one. -/
def discoveredEntry (manifest : PluginManifest) (source : LocalPluginSource) (dir : String)
    (previous : Option LocalPluginStateEntry) : LocalPluginStateEntry :=
  let hash := permissionHash sha256 manifest
  let trustedLocal := source = .builtin || source = .dev
  let approvalStillValid := previous.any fun previous =>
    previous.source.is source && previous.version = manifest.version &&
      previous.approvedVersion = some manifest.version &&
      previous.approvedPermissionHash = some hash
  let approved := trustedLocal || approvalStillValid
  { name := manifest.name
    version := manifest.version
    source := .named source
    dir
    permissionHash := hash
    approvedVersion := if approved then some manifest.version else none
    approvedPermissionHash := if approved then some hash else none
    enabled :=
      if trustedLocal then (previous.map (·.enabled)).getD true
      else approvalStillValid && previous.any (·.enabled)
    failures := (previous.map (·.failures)).getD 0 }

/-- A call goes on when the entries are loaded. -/
def State.initialized (s : State) (i : ℕ) (request : Request) : State :=
  match request with
  | .init => s.settle i request (.ok none)
  | .discover manifest source dir =>
    let entry := discoveredEntry sha256 manifest source dir (Members.get s.plugins manifest.name)
    { s.change i request (.put manifest.name entry) (some entry) with
      discovered := Function.update s.discovered manifest.name (some entry.description) }
  | .approve name _ => s.require i request name
  | .setEnabled name _ => s.require i request name
  | .remove name =>
    if (Members.get s.plugins name).isSome then s.change i request (.delete name) none
    else s.settle i request (.ok none)

/-- The name a call is about. -/
def Request.name : Request → String
  | .init => ""
  | .discover manifest _ _ => manifest.name
  | .approve name _ => name
  | .setEnabled name _ => name
  | .remove name => name

/-- A call goes on with the entry that `require` has read. -/
def State.decide (s : State) (i : ℕ) (request : Request)
    (entry : Option LocalPluginStateEntry) : Option State :=
  match request, entry with
  | .approve name _, none => some (s.settle i request (.error (.notInstalled name)))
  | .approve name expectedPermissionHash, some entry =>
    if entry.permissionHash ≠ expectedPermissionHash then
      some (s.settle i request (.error (.approvalStale name entry.permissionHash)))
    else
      let approved :=
        { entry with
          approvedVersion := some entry.version
          approvedPermissionHash := some entry.permissionHash }
      some (s.change i request (.put name approved) (some approved))
  | .setEnabled name _, none => some (s.settle i request (.error (.notInstalled name)))
  | .setEnabled name enabled, some entry =>
    if enabled && !isPluginApproved entry then
      some (s.settle i request
        (.error (.approvalRequired name entry.version entry.permissionHash)))
    else
      let next := { entry with enabled }
      some (s.change i request (.put name next) (some next))
  | _, _ => none

/-- A call is made, the load ends, and a call goes on after a wait. An operation on the disk says
whether it has succeeded: a write that fails leaves something in its temporary file. -/
inductive Action where
  | call (request : Request)
  | load (ok : Bool)
  | initialized (i : ℕ)
  | decide (i : ℕ)
  | mkdir (i : ℕ) (ok : Bool) (now : ℕ)
  | write (i : ℕ) (ok : Bool) (left : Option Contents)
  | rename (i : ℕ) (ok : Bool)

def step (s : State) : Action → Option State
  | .call request => some (s.call request)
  | .load ok => if s.ready = .loading then some (s.load ok) else none
  | .initialized i =>
    match s.calls[i]? with
    | some ⟨request, .initializing⟩ =>
      match s.ready with
      | .failed => some (s.settle i request (.error .notLoaded))
      | .loaded => some (s.initialized sha256 i request)
      | _ => none
    | _ => none
  | .decide i =>
    match s.calls[i]? with
    | some ⟨request, .required entry⟩ => s.decide i request entry
    | _ => none
  | .mkdir i ok now =>
    match s.calls[i]? with
    | some ⟨request, .directory answer⟩ =>
      if ok then
        some { s.setStage i request (.writing answer now (stateJson s.plugins)) with
               queue := s.queue ++ [Writing.mk i now (stateJson s.plugins)] }
      else some (s.settle i request (.error .io))
    | _ => none
  | .write i ok left =>
    match s.calls[i]? with
    | some ⟨request, .writing answer temporary content⟩ =>
      if ok then
        some { s.setStage i request (.renaming answer temporary) with
               temporaries := Function.update s.temporaries temporary (some (.value content)) }
      else
        some { s.settle i request (.error .io) with
               temporaries := Function.update s.temporaries temporary left
               queue := s.queue.filter (·.call ≠ i) }
    | _ => none
  | .rename i ok =>
    match s.calls[i]? with
    | some ⟨request, .renaming answer temporary⟩ =>
      match if ok then s.temporaries temporary else none with
      | some content =>
        some { s.settle i request (.ok answer) with
               temporaries := Function.update s.temporaries temporary none
               file := some content
               queue := s.queue.filter (·.call ≠ i) }
      | none => some { s.settle i request (.error .io) with queue := s.queue.filter (·.call ≠ i) }
    | _ => none

end AppRuntime.PluginState
