import VolundCode.Lib.Ecma
import VolundCode.Lib.Json

/-!
# The schema of the configuration

`ConfigSchema` says which trees are configurations, section by section, and `validateConfig`
accepts a tree that has no value of a wrong type, without the keys that the schema does not know.
The registry says which keys a project may set.
-/

namespace Config

open Ecma

/-! ### The registry -/

inductive ProjectOverride where
  | allowed
  | forbidden
  deriving DecidableEq, Repr

/-- Which keys a project may set. -/
def configKeyRegistry : List (String × ProjectOverride) :=
  [("provider.default", .allowed), ("provider.*.model", .allowed),
    ("provider.*.baseUrl", .forbidden), ("provider.*.endpoint", .forbidden),
    ("router.type", .forbidden), ("router.chain", .forbidden),
    ("router.cooldown_seconds", .forbidden), ("router.allow_cross_provider_tool_use", .allowed),
    ("models.aliases.*", .allowed), ("runner.maxToolLoopsPerTurn", .allowed),
    ("runner.top_level_budget", .allowed), ("subagent.max_depth", .allowed),
    ("subagent.max_concurrent", .allowed), ("subagent.default_budget", .allowed),
    ("subagent.queue_timeout_ms", .allowed), ("subagent.session_budget", .allowed),
    ("subagent.auto_isolation", .allowed), ("tools.windows_shell", .allowed),
    ("tools.pass_through_env", .allowed), ("tools.ignore_dirs", .allowed),
    ("tools.fs_read_roots", .allowed), ("tools.fs_write_roots", .allowed),
    ("tools.command_timeout_ms", .allowed), ("env.*", .allowed), ("context.policy", .allowed),
    ("context.max_tokens", .allowed), ("context.*", .allowed), ("memory.enabled", .allowed),
    ("memory.max_body_lines", .allowed), ("memory.paths.global", .allowed),
    ("memory.paths.project", .allowed), ("sandbox.*", .allowed), ("prompt.@include", .allowed),
    ("native.ipc_max_line_bytes", .allowed), ("ui.theme", .allowed), ("ui.color", .allowed),
    ("ui.locale", .allowed), ("telemetry.sink", .forbidden),
    ("telemetry.otel.endpoint", .forbidden), ("evolution.enabled", .allowed),
    ("skills.disabled", .allowed), ("skills.index_budget", .allowed), ("mcp.disabled", .allowed),
    ("mcp.enable_all_project_servers", .forbidden), ("skills.market", .forbidden),
    ("mcp.market", .forbidden), ("plugins.market", .forbidden),
    ("plugins.builtin_disabled", .allowed), ("web_search.backend", .allowed),
    ("web_search.max_results", .allowed), ("web_search.tavily_api_key", .forbidden),
    ("web_search.brave_api_key", .forbidden), ("web_search.custom_url", .forbidden),
    ("web_search.custom_api_key", .forbidden), ("web.enabled", .allowed), ("web.port", .allowed),
    ("web.terminal.shell", .allowed), ("web.terminal.font_size", .allowed),
    ("web.terminal.scrollback", .allowed), ("remote.enabled", .allowed),
    ("remote.gateway_url", .allowed), ("remote.client_id", .allowed),
    ("remote.client_secret", .forbidden), ("tasks.enabled", .forbidden),
    ("tasks.max_concurrent", .forbidden), ("tasks.journal_retention", .forbidden),
    ("tasks.webhook_url", .forbidden), ("cache.strategy", .allowed),
    ("cache.ttl_seconds", .allowed), ("reflection.enabled", .allowed),
    ("reflection.triggers.on_error", .allowed), ("reflection.triggers.on_compact", .allowed),
    ("reflection.triggers.every_n_turns", .allowed), ("reflection.cooldown_seconds", .allowed),
    ("reflection.model_role", .allowed), ("reflection.run_budget", .allowed),
    ("reflection.session_token_budget", .allowed), ("reflection.persist", .allowed),
    ("reflection.inject_max_lessons", .allowed), ("reflection.inject_max_bytes", .allowed),
    ("auth.skipAuth", .forbidden), ("auth.anthropic_api_key", .forbidden),
    ("auth.*", .forbidden), ("preferences.*", .allowed), ("permissions.mode", .forbidden),
    ("permissions.request_timeout_ms", .forbidden)]

/-- `key.split('.')`. -/
def segments (key : String) : List String :=
  (key.toList.splitOn '.').map String.ofList

/-- A character that ends a line. -/
def isLineTerminator (c : Char) : Bool :=
  c = '\n' || c = '\r' || c = '\u2028' || c = '\u2029'

/-- `registryPattern`, on the segments of an id and of a key: a star stands for one segment, or for
the rest of the line if it is the last one. -/
def registryMatches : List String → List String → Bool
  | [], key => key.isEmpty
  | _ :: _, [] => false
  | [last], key =>
    if last = "*" then
      let rest := ".".intercalate key
      rest ≠ "" && !rest.toList.any isLineTerminator
    else key = [last]
  | id :: ids, part :: key =>
    (if id = "*" then decide (part ≠ "") else decide (part = id)) && registryMatches ids key

/-- What the registry says of a key: under its own name, or under the first pattern that matches
it. -/
def projectOverrideFor (key : String) : Option ProjectOverride :=
  match configKeyRegistry.find? fun entry => entry.1 = key with
  | some entry => some entry.2
  | none =>
    (configKeyRegistry.find? fun entry =>
      entry.1.toList.contains '*' && registryMatches (segments entry.1) (segments key)).map
      Prod.snd

/-- A text without regard to the case of its ASCII letters. -/
def ignoreCase (s : String) : List Char :=
  s.toList.map Char.toLower

/-- `isProjectOverrideForbidden`: the registry forbids the key, or its name is that of an address
or of an API key. -/
def isProjectOverrideForbidden (key : String) : Bool :=
  projectOverrideFor key = some .forbidden ||
    (segments key).getLast?.any (fun name =>
      ignoreCase name = "baseurl".toList || ignoreCase name = "endpoint".toList) ||
    "_api_key".toList.isSuffixOf (ignoreCase key)

/-! ### Schemas -/

/-- A schema of JSON values. The fields of an object may be required, and its other members may
have a schema too. -/
inductive Schema where
  | string (check : String → Bool)
  | number (check : Decimal → Bool)
  | boolean
  | json
  | array (item : Schema)
  | record (value : Schema)
  | object (fields : List (String × Bool × Schema)) (catchall : Option Schema)

namespace Schema

/-- The schema of a member of an object, if it is known. -/
def member (fields : List (String × Bool × Schema)) (catchall : Option Schema) (key : String) :
    Option Schema :=
  match fields.find? fun field => field.1 = key with
  | some field => some field.2.2
  | none => catchall

/-- No required field is missing. -/
def complete (fields : List (String × Bool × Schema)) (ms : List (String × Json)) : Bool :=
  fields.all fun field => !field.2.1 || ms.any fun m => m.1 = field.1

end Schema

mutual

/-- The value without its unknown keys, if nothing in it has a wrong type. -/
def clean : Json → Schema → Option Json
  | v, .json => some v
  | .str s, .string check => if check s then some (.str s) else none
  | .num d, .number check => if check d then some (.num d) else none
  | .bool b, .boolean => some (.bool b)
  | .arr xs, .array item => (cleanElements xs item).map .arr
  | .obj ms, .record value => (cleanMembers ms [] (some value)).map .obj
  | .obj ms, .object fields catchall =>
    if Schema.complete fields ms then (cleanMembers ms fields catchall).map .obj else none
  | _, _ => none

/-- `clean` of every element. -/
def cleanElements : List Json → Schema → Option (List Json)
  | [], _ => some []
  | x :: xs, item =>
    match clean x item, cleanElements xs item with
    | some x, some xs => some (x :: xs)
    | _, _ => none

/-- `clean` of every member that is known. -/
def cleanMembers : List (String × Json) → List (String × Bool × Schema) → Option Schema →
    Option (List (String × Json))
  | [], _, _ => some []
  | (k, v) :: ms, fields, catchall =>
    match Schema.member fields catchall k with
    | none => cleanMembers ms fields catchall
    | some schema =>
      match clean v schema, cleanMembers ms fields catchall with
      | some v, some ms => some ((k, v) :: ms)
      | _, _ => none

end

namespace Schema

def text : Schema :=
  .string fun _ => true

/-- A text of some length at least, in UTF-16 code units. -/
def textOf (shortest : ℕ) : Schema :=
  .string fun s => shortest ≤ (units s).length

def oneOf (values : List String) : Schema :=
  .string values.contains

def real : Schema :=
  .number fun _ => true

/-- An integer that a double represents exactly. -/
def int : Schema :=
  .number fun d => d.integer.any fun n => decide (-(2 ^ 53 - 1) ≤ n ∧ n ≤ 2 ^ 53 - 1)

def intBetween (low high : ℤ) : Schema :=
  .number fun d => d.integer.any fun n => decide (low ≤ n ∧ n ≤ high)

def texts : Schema :=
  .array text

/-- An object with optional fields. -/
def fields (fields : List (String × Schema)) (catchall : Option Schema) : Schema :=
  .object (fields.map fun field => (field.1, false, field.2)) catchall

/-- An object with optional fields and no others. -/
def strict (fs : List (String × Schema)) : Schema :=
  fields fs none

end Schema

section Sections

open Schema

def providerEntrySchema : Schema :=
  strict [("model", text), ("baseUrl", text), ("endpoint", text)]

def modelAliasSchema : Schema :=
  .object [("provider", true, text), ("model", true, text)] none

def budgetSchema : Schema :=
  strict [("costUSDMax", real), ("tokenMax", real), ("timeMsMax", real)]

def openSection : Schema :=
  .record .json

def routerSchema : Schema :=
  strict
    [("type", oneOf ["single", "fallback", "role"]), ("chain", .array (.object
        [("provider", true, textOf 1), ("model", true, textOf 1), ("priority", true, real)] none)),
      ("cooldown_seconds", real), ("allow_cross_provider_tool_use", .boolean)]

def subagentSchema : Schema :=
  strict
    [("max_depth", int), ("max_concurrent", int), ("default_budget", budgetSchema),
      ("queue_timeout_ms", int),
      ("session_budget", strict [("costUSDMax", real), ("tokenMax", real)]),
      ("auto_isolation", .boolean)]

def toolsSchema : Schema :=
  strict
    [("windows_shell", text), ("pass_through_env", texts), ("ignore_dirs", texts),
      ("fs_read_roots", texts), ("fs_write_roots", texts),
      ("command_timeout_ms", .number fun d => decide (0 < d.mantissa))]

def memorySchema : Schema :=
  strict
    [("enabled", .boolean), ("max_body_lines", int),
      ("paths", strict [("global", text), ("project", text)])]

def webSearchSchema : Schema :=
  strict
    [("backend", oneOf ["tavily", "brave", "custom"]), ("max_results", intBetween 1 10),
      ("tavily_api_key", text), ("brave_api_key", text),
      ("custom_url", .string fun s => startsWith s "http://" || startsWith s "https://"),
      ("custom_api_key", text)]

def webSchema : Schema :=
  strict
    [("enabled", .boolean), ("port", intBetween 0 65535), ("terminal", strict
        [("shell", textOf 1), ("font_size", intBetween 9 32),
          ("scrollback", intBetween 100 100000)])]

def reflectionSchema : Schema :=
  strict
    [("enabled", .boolean), ("triggers", strict
        [("on_error", .boolean), ("on_compact", .boolean), ("every_n_turns", int)]),
      ("cooldown_seconds", int), ("model_role", text), ("run_budget", budgetSchema),
      ("session_token_budget", int), ("persist", oneOf ["manual", "auto", "off"]),
      ("inject_max_lessons", int), ("inject_max_bytes", int)]

/-- `ConfigSchema`, where `isUrl` says which texts are addresses. -/
def ConfigSchema (isUrl : String → Bool) : Schema :=
  strict
    [("provider", fields [("default", text)] (some providerEntrySchema)), ("router", routerSchema),
      ("models", strict [("aliases", .record modelAliasSchema)]),
      ("runner", strict [("maxToolLoopsPerTurn", int), ("top_level_budget", .boolean)]),
      ("subagent", subagentSchema),
      ("tools", toolsSchema),
      ("env", .record text),
      ("context", fields
        [("policy", oneOf ["sliding", "summary", "semantic"]), ("max_tokens", int)] (some .json)),
      ("memory", memorySchema),
      ("sandbox", openSection),
      ("prompt", openSection),
      ("native", strict [("ipc_max_line_bytes", int)]),
      ("ui", strict [("theme", text), ("color", .boolean), ("locale", oneOf ["zh", "en"])]),
      ("telemetry", strict
        [("sink", oneOf ["local", "otel"]), ("otel", strict [("endpoint", text)])]),
      ("evolution", strict [("enabled", .boolean)]),
      ("skills", strict [("disabled", texts), ("index_budget", int), ("market", text)]),
      ("mcp", strict
        [("disabled", texts), ("enable_all_project_servers", .boolean), ("market", text)]),
      ("plugins", strict [("market", text), ("builtin_disabled", texts)]),
      ("web_search", webSearchSchema),
      ("web", webSchema),
      ("remote", strict
        [("enabled", .boolean), ("gateway_url", textOf 1), ("client_id", textOf 1),
          ("client_secret", textOf 16)]),
      ("tasks", strict
        [("enabled", .boolean), ("max_concurrent", intBetween 1 8),
          ("journal_retention", intBetween 10 10000), ("webhook_url", .string isUrl)]),
      ("cache", strict
        [("strategy", oneOf ["auto", "off"]),
          ("ttl_seconds", .number fun d => d.integer = some 300 || d.integer = some 3600)]),
      ("reflection", reflectionSchema),
      ("auth", fields [("skipAuth", .boolean), ("anthropic_api_key", text)] (some .json)),
      ("permissions", strict
        [("mode", oneOf ["ask", "auto", "full"]),
          ("request_timeout_ms", .number fun d => d.integer.any fun n =>
            decide (0 ≤ n ∧ n ≤ 2 ^ 53 - 1))]),
      ("preferences", openSection)]

end Sections

/-- A configuration is an object. -/
abbrev Config : Type := List (String × Json)

/-- `validateConfig`: the configuration without its unknown keys. A value of a wrong type is an
error. -/
def validateConfig (isUrl : String → Bool) (input : Config) : Option Config :=
  match clean (.obj input) (ConfigSchema isUrl) with
  | some (.obj config) => some config
  | _ => none

/-- The configurations that `validateConfig` accepts. -/
def Accepted (isUrl : String → Bool) (config : Config) : Prop :=
  ∃ input, validateConfig isUrl input = some config

end Config
