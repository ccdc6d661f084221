import VolundCode.Lib.Json
import VolundCode.Lib.Ecma

/-!
# Permission specs and rules

What a tool asks permission for, the key under which a decision about it is remembered, and
when a rule covers a request. Paths, URLs and globs are the platform's: their functions are
the fields of `Platform`.
-/

namespace Permission

open Ecma

/-- An error with its code. -/
structure VolundError where
  code : String
  message : String
  deriving DecidableEq, Repr

/-! ### The platform -/

/-- The parts of a parsed URL. -/
structure Url where
  protocol : String
  hostname : String
  port : String

/-- The options of a glob matcher. -/
structure GlobOptions where
  globstar : Bool
  nocase : Bool
  dot : Bool
  nonegate : Bool

/-- The functions of the platform on paths and URLs, and the glob matcher. -/
structure Platform where
  isAbsolute : String → Bool
  resolve : List String → String
  relative : String → String → String
  join : String → String → String
  dirname : String → String
  basename : String → String
  homedir : String
  win32 : Bool
  parseUrl : String → Option Url
  picomatch : String → GlobOptions → String → Bool

/-! ### Specs -/

structure FsSpec where
  read : Option (List String)
  write : Option (List String)

structure BashSpec where
  command : String
  background : Option Bool

inductive Method where
  | GET
  | POST
  | PUT
  | DELETE
  | PATCH
  deriving DecidableEq, Repr

def Method.name : Method → String
  | .GET => "GET"
  | .POST => "POST"
  | .PUT => "PUT"
  | .DELETE => "DELETE"
  | .PATCH => "PATCH"

structure NetSpec where
  url : String
  method : Method

structure EnvSpec where
  read : Option (List String)

/-- What a tool asks permission for. -/
structure PermissionSpec where
  fs : Option FsSpec
  bash : Option BashSpec
  net : Option NetSpec
  env : Option EnvSpec
  custom : Option (List (String × Json))

/-- A spec that asks for nothing. -/
def PermissionSpec.empty : PermissionSpec where
  fs := none
  bash := none
  net := none
  env := none
  custom := none

/-- The session of a request. -/
structure Session where
  id : String
  cwd : String

structure PermissionRequest where
  toolName : String
  spec : PermissionSpec
  session : Session

/-- A remembered rule: a tool and what it may do. -/
structure Rule where
  tool : String
  spec : PermissionSpec

/-- `spec.fs?.read ?? []`. -/
def PermissionSpec.reads (spec : PermissionSpec) : List String :=
  (spec.fs.bind FsSpec.read).getD []

/-- `spec.fs?.write ?? []`. -/
def PermissionSpec.writes (spec : PermissionSpec) : List String :=
  (spec.fs.bind FsSpec.write).getD []

/-! ### Keys -/

/-- A member of an object, left out where the value is not there. -/
def field (key : String) (v : Option Json) : List (String × Json) :=
  match v with
  | none => []
  | some v => [(key, v)]

def strings (xs : List String) : Json :=
  .arr (xs.map .str)

def FsSpec.toJson (fs : FsSpec) : Json :=
  .obj (field "read" (fs.read.map strings) ++ field "write" (fs.write.map strings))

def BashSpec.toJson (bash : BashSpec) : Json :=
  .obj (("command", .str bash.command) :: field "background" (bash.background.map .bool))

def NetSpec.toJson (net : NetSpec) : Json :=
  .obj [("url", .str net.url), ("method", .str net.method.name)]

def EnvSpec.toJson (env : EnvSpec) : Json :=
  .obj (field "read" (env.read.map strings))

def PermissionSpec.toJson (spec : PermissionSpec) : Json :=
  .obj (field "fs" (spec.fs.map FsSpec.toJson) ++ field "bash" (spec.bash.map BashSpec.toJson) ++
    field "net" (spec.net.map NetSpec.toJson) ++ field "env" (spec.env.map EnvSpec.toJson) ++
    field "custom" (spec.custom.map .obj))

/-- The origin of a URL. -/
def normalizeOrigin (p : Platform) (url : String) : Except VolundError String :=
  match p.parseUrl url with
  | none => .error ⟨"permission_net_url_invalid", "invalid net URL: " ++ url⟩
  | some parsed =>
    if parsed.hostname = "" then
      .error ⟨"permission_net_url_invalid", "net URL has no host: " ++ url⟩
    else
      let port := if parsed.port = "" then "" else ":" ++ parsed.port
      .ok (parsed.protocol ++ "//" ++ parsed.hostname ++ port)

/-- The text `JSON.stringify([toolName, spec])`. -/
def stringifyKey (toolName : String) (spec : Json) : String :=
  String.ofList (Json.arr [.str toolName, spec]).stringify

/-- The key of a tool and a spec, under which decisions are remembered. Of a spec that asks
for the network it keeps the origin and the method alone. -/
def permissionKey (p : Platform) (toolName : String) (spec : PermissionSpec) :
    Except VolundError String :=
  match spec.net with
  | some net =>
    match normalizeOrigin p net.url with
    | .error e => .error e
    | .ok origin =>
      .ok (stringifyKey toolName (.obj [("net", NetSpec.toJson { net with url := origin })]))
  | none => .ok (stringifyKey toolName spec.toJson)

def keyOf (p : Platform) (request : PermissionRequest) : Except VolundError String :=
  permissionKey p request.toolName request.spec

/-! ### Paths -/

/-- The path stands for the directory `cwd` or something in it. -/
def inCwd (p : Platform) (path cwd : String) : Bool :=
  let full := if p.isAbsolute path then p.resolve [path] else p.resolve [cwd, path]
  let rel := p.relative (p.resolve [cwd]) full
  rel = "" || (!startsWith rel ".." && !p.isAbsolute rel)

def MATCHER_OPTIONS : GlobOptions where
  globstar := true
  nocase := false
  dot := false
  nonegate := false

def expandHome (p : Platform) (path : String) : Except VolundError String :=
  if path = "~" then .ok p.homedir
  else if startsWith path "~/" then .ok (p.join p.homedir (slice path 2))
  else if startsWith path "~" then
    .error ⟨"permission_path_pattern_invalid",
      "home expansion is only supported for \"~\" and \"~/\": " ++ path⟩
  else .ok path

def toPosixSeparators (p : Platform) (path : String) : String :=
  if p.win32 then String.ofList (path.toList.map fun c => if c = '\\' then '/' else c) else path

def assertSupportedPattern (p : Platform) (pattern : String) : Except VolundError Unit :=
  if startsWith pattern "!" then
    .error ⟨"permission_path_pattern_invalid",
      "negation patterns are not supported; deny rules belong in permissions.toml: " ++ pattern⟩
  else if p.isAbsolute pattern || pattern = "~" || startsWith pattern "~/" || pattern = "." ||
      pattern = ".." || startsWith pattern "./" || startsWith pattern "../" then .ok ()
  else
    .error ⟨"permission_path_pattern_invalid",
      "bare-name patterns are not supported; anchor with \"/\", \"~/\" or \"./\": " ++ pattern⟩

/-- The real path of a path, or of its nearest ancestor that exists followed by the rest. The
first argument bounds the number of ancestors. -/
def realpathBestEffort (p : Platform) (realpath : String → Option String) : ℕ → String → String
  | 0, path => path
  | n + 1, path =>
    match realpath path with
    | some real => real
    | none =>
      let parent := p.dirname path
      if parent = path then path
      else p.join (realpathBestEffort p realpath n parent) (p.basename path)

def canonicalizePattern (p : Platform) (pattern cwd : String) : Except VolundError String :=
  match assertSupportedPattern p pattern with
  | .error e => .error e
  | .ok () =>
    match expandHome p pattern with
    | .error e => .error e
    | .ok expanded => .ok (toPosixSeparators p (p.resolve [cwd, expanded]))

def canonicalizePath (p : Platform) (realpath : String → Option String) (path cwd : String) :
    Except VolundError String :=
  match expandHome p path with
  | .error e => .error e
  | .ok expanded =>
    let full := p.resolve [cwd, expanded]
    .ok (toPosixSeparators p (realpathBestEffort p realpath (full.length + 1) full))

def matchPath (p : Platform) (realpath : String → Option String) (pattern path cwd : String) :
    Except VolundError Bool :=
  match canonicalizePattern p pattern cwd with
  | .error e => .error e
  | .ok pattern =>
    match canonicalizePath p realpath path cwd with
    | .error e => .error e
    | .ok path => .ok (p.picomatch pattern MATCHER_OPTIONS path)

/-! ### Rules -/

def GLOB_CHARS : List Char :=
  ['*', '?', '[']

def commandMatchesPrefix (head command : String) : Bool :=
  command = head || startsWith command (head ++ " ")

/-- A command rule covers a command. -/
def commandMatches (p : Platform) (ruleCommand requestCommand : String) : Bool :=
  if endsWith ruleCommand " *" then
    commandMatchesPrefix
      (trimEnd (String.ofList (ruleCommand.toList.take (ruleCommand.toList.length - 2))))
      requestCommand
  else if includesAny ruleCommand GLOB_CHARS then
    p.picomatch ruleCommand ⟨true, false, true, true⟩ requestCommand
  else ruleCommand = requestCommand

/-- The patterns cover every path that is asked for. -/
def covered (p : Platform) (realpath : String → Option String) (cwd : String)
    (patterns paths : Option (List String)) : Bool :=
  let required := paths.getD []
  if required.isEmpty then true
  else
    match patterns with
    | none => false
    | some patterns =>
      required.all fun path =>
        patterns.any fun pattern =>
          match matchPath p realpath pattern path cwd with
          | .ok matched => matched
          | .error _ => false

/-- The rule covers the shell command of the request. -/
def bashMatches (p : Platform) (rule request : Option BashSpec) : Bool :=
  match rule, request with
  | none, none => true
  | some rule, some request =>
    commandMatches p rule.command request.command &&
      rule.background.getD false == request.background.getD false
  | _, _ => false

/-- The rule covers the network access of the request. -/
def netMatches (p : Platform) (rule request : Option NetSpec) : Except VolundError Bool :=
  match rule, request with
  | none, none => .ok true
  | some rule, some request =>
    match normalizeOrigin p rule.url with
    | .error e => .error e
    | .ok ruleOrigin =>
      match normalizeOrigin p request.url with
      | .error e => .error e
      | .ok requestOrigin => .ok (ruleOrigin == requestOrigin && rule.method == request.method)
  | _, _ => .ok false

/-- The text of `custom ?? null`. -/
def customText (custom : Option (List (String × Json))) : List Char :=
  (match custom with
    | none => Json.null
    | some ms => Json.obj ms).stringify

/-- The rule covers the request. -/
def permissionRuleMatches (p : Platform) (realpath : String → Option String) (rule : Rule)
    (request : PermissionRequest) : Except VolundError Bool :=
  if rule.tool ≠ request.toolName then .ok false
  else if !bashMatches p rule.spec.bash request.spec.bash then .ok false
  else
    match netMatches p rule.spec.net request.spec.net with
    | .error e => .error e
    | .ok false => .ok false
    | .ok true =>
      let cwd := request.session.cwd
      .ok (covered p realpath cwd (rule.spec.fs.bind FsSpec.read)
          (request.spec.fs.bind FsSpec.read) &&
        covered p realpath cwd (rule.spec.fs.bind FsSpec.write)
          (request.spec.fs.bind FsSpec.write) &&
        covered p realpath cwd (rule.spec.env.bind EnvSpec.read)
          (request.spec.env.bind EnvSpec.read) &&
        customText rule.spec.custom == customText request.spec.custom)

/-! ### Keys tell tools apart -/

/-- Requests with one key name one tool. -/
theorem toolName_of_stringifyKey {a b : String} {x y : Json}
    (h : stringifyKey a x = stringifyKey b y) :
  a = b
  := by
  have htext := congrArg String.toList h
  simp only [stringifyKey, String.toList_ofList, Json.stringify, Json.quote, List.cons_append,
    List.append_assoc, List.nil_append, List.cons.injEq, true_and] at htext
  have hread := congrArg Json.parseString htext
  rw [Json.parseString_quote, Json.parseString_quote] at hread
  apply (Prod.mk.inj (Option.some.inj hread)).1

/-- Requests with one key name one tool. -/
theorem toolName_of_keyOf {p : Platform} {a b : PermissionRequest} {key : String}
    (ha : keyOf p a = .ok key) (hb : keyOf p b = .ok key) :
  a.toolName = b.toolName
  := by
  have hkey : ∀ {r : PermissionRequest}, keyOf p r = .ok key →
      ∃ x, key = stringifyKey r.toolName x := by
    intro r hr
    rw [keyOf, permissionKey] at hr
    split at hr
    · split at hr
      · cases hr
      · exact ⟨_, (Except.ok.inj hr).symm⟩
    · exact ⟨_, (Except.ok.inj hr).symm⟩
  obtain ⟨x, hx⟩ := hkey ha
  obtain ⟨y, hy⟩ := hkey hb
  rw [hx] at hy
  apply toolName_of_stringifyKey hy

end Permission
