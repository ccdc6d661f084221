import VolundCode.Config.Layers
import VolundCode.Lib.Lines

/-!
# Configuration files

The reader and the writer of configuration files. A file is read line by line: a header names the
table that the following pairs belong to, and the value of a pair is JSON or an inline value of
TOML. Every pair is assigned under its dotted key. The writer puts the values of a table that are
no tables below its header, and the tables in it behind them.

Texts are lists of characters. A value that a reader cannot read is `none`, since every error of
reading a value becomes the same one.
-/

namespace Config.Toml

open Json

/-! ### Comments -/

/-- Where `stripComment` stands: outside of strings, in a string with its quote, or behind a
backslash in a basic string. -/
inductive Quoting where
  | plain
  | quoted (quote : Char)
  | escaped
deriving DecidableEq

/-- The line up to a comment. -/
def stripFrom : Quoting → List Char → List Char
  | _, [] => []
  | .escaped, c :: s => c :: stripFrom (.quoted '"') s
  | .quoted quote, c :: s =>
    c :: stripFrom
      (if quote = '"' ∧ c = '\\' then .escaped else if c = quote then .plain else .quoted quote) s
  | .plain, c :: s =>
    if c = '"' ∨ c = '\x27' then c :: stripFrom (.quoted c) s
    else if c = '#' then []
    else c :: stripFrom .plain s

/-- `stripComment`. -/
def stripComment (line : List Char) : List Char :=
  stripFrom .plain line

/-- `line.trim()`. -/
def trim (line : List Char) : List Char :=
  ((line.dropWhile Ecma.isSpace).reverse.dropWhile Ecma.isSpace).reverse

/-! ### Values -/

/-- `skipTomlSeparators`. -/
def skipTomlSeparators (s : List Char) : List Char :=
  s.dropWhile Ecma.isSpace

/-- The basic string up to its closing quote and what is behind it. -/
def closeBasic : List Char → Option (List Char × List Char)
  | [] => none
  | ['\\'] => none
  | '\\' :: c :: s => (closeBasic s).map fun (body, s) => ('\\' :: c :: body, s)
  | c :: s => if c = '"' then some ([], s) else (closeBasic s).map fun (body, s) => (c :: body, s)

/-- `scanTomlString`, at an opening quote. -/
def scanTomlString : List Char → Option (String × List Char)
  | '\x27' :: s =>
    if '\x27' ∈ s then
      some (String.ofList (s.takeWhile (· ≠ '\x27')), (s.dropWhile (· ≠ '\x27')).tail)
    else none
  | '"' :: s =>
    match closeBasic s with
    | none => none
    | some (body, s) =>
      match parse ('"' :: (body ++ ['"'])) with
      | some (.str value) => some (value, s)
      | _ => none
  | _ => none

/-- A character of a bare key. -/
def isBareChar (c : Char) : Bool :=
  c.isAlphanum || c = '_' || c = '-'

/-- `scanTomlKey`. -/
def scanTomlKey (s : List Char) : Option (String × List Char) :=
  match skipTomlSeparators s with
  | '"' :: s => scanTomlString ('"' :: s)
  | '\x27' :: s => scanTomlString ('\x27' :: s)
  | s =>
    match s.takeWhile isBareChar with
    | [] => none
    | key => some (String.ofList key, s.dropWhile isBareChar)

/-- A character that ends a token. -/
def endsToken (c : Char) : Bool :=
  Ecma.isSpace c || c = ',' || c = ']' || c = '\x7d'

/-- `out[key] = value` in an inline table: `__proto__` names no member. -/
def setInline (out : List (String × Json)) (key : String) (value : Json) : List (String × Json) :=
  if key = "__proto__" then out else setMember out key value

mutual

/-- `scanTomlValue`. The first argument bounds the number of calls. -/
def scanTomlValue : ℕ → List Char → Option (Json × List Char)
  | 0, _ => none
  | n + 1, s =>
    match skipTomlSeparators s with
    | '\x7b' :: s =>
      match skipTomlSeparators s with
      | '\x7d' :: s => some (.obj [], s)
      | s => scanTomlInlineTable n [] s
    | '[' :: s =>
      match skipTomlSeparators s with
      | ']' :: s => some (.arr [], s)
      | s => scanTomlArray n [] s
    | '"' :: s => (scanTomlString ('"' :: s)).map fun (value, s) => (.str value, s)
    | '\x27' :: s => (scanTomlString ('\x27' :: s)).map fun (value, s) => (.str value, s)
    | s =>
      (parse (s.takeWhile fun c => !endsToken c)).map fun value =>
        (value, s.dropWhile fun c => !endsToken c)

/-- `scanTomlInlineTable`, after the members read so far. -/
def scanTomlInlineTable : ℕ → List (String × Json) → List Char → Option (Json × List Char)
  | 0, _, _ => none
  | n + 1, out, s =>
    match scanTomlKey s with
    | none => none
    | some (key, s) =>
      match skipTomlSeparators s with
      | '=' :: s =>
        match scanTomlValue n s with
        | none => none
        | some (value, s) =>
          match skipTomlSeparators s with
          | ',' :: s => scanTomlInlineTable n (setInline out key value) s
          | '\x7d' :: s => some (.obj (setInline out key value), s)
          | _ => none
      | _ => none

/-- `scanTomlArray`, after the elements read so far. -/
def scanTomlArray : ℕ → List Json → List Char → Option (Json × List Char)
  | 0, _, _ => none
  | n + 1, out, s =>
    match scanTomlValue n s with
    | none => none
    | some (value, s) =>
      match skipTomlSeparators s with
      | ',' :: s => scanTomlArray n (out ++ [value]) s
      | ']' :: s => some (.arr (out ++ [value]), s)
      | _ => none

end

/-- `parseTomlValue`: JSON, or else an inline value. -/
def parseTomlValue (text : List Char) : Option Json :=
  match parse text with
  | some value => some value
  | none =>
    match scanTomlValue (2 * text.length + 1) text with
    | none => none
    | some (value, s) => if skipTomlSeparators s = [] then some value else none

/-! ### Lines -/

/-- The name of a header. -/
def headerOf : List Char → Option (List Char)
  | '[' :: s =>
    if s.getLast? = some ']' ∧ s.dropLast ≠ [] ∧ ']' ∉ s.dropLast then some s.dropLast else none
  | _ => none

/-- A character of a key without quotes. -/
def isKeyChar (c : Char) : Bool :=
  c.isAlphanum || c = '_' || c = '.' || c = '-'

/-- The text up to a quote and what is behind it. -/
def upTo (quote : Char) (s : List Char) : Option (List Char × List Char) :=
  if quote ∈ s then some (s.takeWhile (· ≠ quote), (s.dropWhile (· ≠ quote)).tail) else none

/-- The key of a pair, without its quotes, and what is behind it. -/
def keyOf : List Char → Option (List Char × List Char)
  | '"' :: s => upTo '"' s
  | '\x27' :: s => upTo '\x27' s
  | s =>
    match s.takeWhile isKeyChar with
    | [] => none
    | key => some (key, s.dropWhile isKeyChar)

/-- The key and the text of the value of a pair. -/
def pairOf (line : List Char) : Option (List Char × List Char) :=
  match keyOf line with
  | none => none
  | some (key, s) =>
    match s.dropWhile Ecma.isSpace with
    | '=' :: s =>
      let value := s.dropWhile Ecma.isSpace
      if value ≠ [] ∧ Lines.Unbroken value then some (key, value) else none
    | _ => none

/-- What a line says. -/
inductive Line where
  | blank
  | header (names : List String)
  | pair (key : String) (value : Json)

/-- A line that cannot be read is an error. -/
def readLine (raw : List Char) : Except VolundError Line :=
  match trim (stripComment raw) with
  | [] => .ok .blank
  | line =>
    match headerOf line with
    | some name => .ok (.header ((name.splitOn '.').map String.ofList))
    | none =>
      match pairOf line with
      | none => .error ⟨"config_toml_invalid", "Invalid TOML line: " ++ String.ofList raw⟩
      | some (key, text) =>
        match parseTomlValue text with
        | none => .error ⟨"config_toml_invalid", "Unsupported TOML value: " ++ String.ofList text⟩
        | some value => .ok (.pair (String.ofList key) value)

/-- `names.join('.')`. -/
def joinDots (names : List String) : String :=
  String.ofList (['.'].intercalate (names.map String.toList))

/-- The dotted key of a pair. -/
def dottedKey (names : List String) (key : String) : String :=
  joinDots (names ++ [key])

/-- The lines are read in turn and their values are assigned, under the names of the last
header. -/
def parseLines : Config → List String → List (List Char) → Except VolundError Config
  | out, _, [] => .ok out
  | out, names, raw :: rest =>
    match readLine raw with
    | .error e => .error e
    | .ok .blank => parseLines out names rest
    | .ok (.header names) => parseLines out names rest
    | .ok (.pair key value) =>
      match assign out (dottedKey names key) value with
      | .error e => .error e
      | .ok out => parseLines out names rest

/-- `parseTomlContent`. -/
def parseTomlContent (text : List Char) : Except VolundError Config :=
  parseLines [] [] (text.splitOn '\n')

/-! ### Writing -/

/-- A name that is written as it is. -/
def bare (name : String) : Bool :=
  name ≠ "" && name.toList.all isBareChar

/-- `tomlKey`. -/
def tomlKey (key : String) : List Char :=
  if bare key then key.toList else quote key

/-- A number that rounds to a finite one. -/
@[irreducible]
def finite (d : Decimal) : Bool :=
  decide (|d.toRat| < 2 ^ 1024 - 2 ^ 970)

mutual

/-- `tomlValue`. -/
def tomlValue : Json → List Char
  | .arr xs => '[' :: ([',', ' '].intercalate (tomlElements xs) ++ [']'])
  | .obj [] => ['\x7b', '\x7d']
  | .obj ms => '\x7b' :: ' ' :: ([',', ' '].intercalate (tomlMembers ms) ++ [' ', '\x7d'])
  | .num d => if finite d then d.print else stringify .null
  | v => stringify v

/-- The elements of an array. -/
def tomlElements : List Json → List (List Char)
  | [] => []
  | x :: xs => tomlValue x :: tomlElements xs

/-- The members of an inline table. -/
def tomlMembers : List (String × Json) → List (List Char)
  | [] => []
  | (k, v) :: ms => (tomlKey k ++ ' ' :: '=' :: ' ' :: tomlValue v) :: tomlMembers ms

end

/-- `tomlSectionPath`. -/
def tomlSectionPath (path : String) : List Char :=
  if (segments path).all bare then path.toList
  else ['.'].intercalate ((segments path).map tomlKey)

/-- The line of a value that is no table. -/
def pairLine (m : String × Json) : List Char :=
  tomlKey m.1 ++ ' ' :: '=' :: ' ' :: tomlValue m.2

/-- The members of a table that are no tables. -/
def scalarsOf (table : List (String × Json)) : List (String × Json) :=
  table.filter fun m => !m.2.isObject

/-- The members of a table that are tables. -/
def nestedOf (table : List (String × Json)) : List (String × Json) :=
  table.filter fun m => m.2.isObject

/-- The header of a table. It is left out if there are only tables in it. -/
def headerLines (path : String) (table : List (String × Json)) : List (List Char) :=
  if scalarsOf table ≠ [] ∨ nestedOf table = [] then
    [[], '[' :: (tomlSectionPath path ++ [']'])]
  else []

mutual

/-- `emitTable`. -/
def emitTable (path : String) : Json → List (List Char)
  | .obj table =>
    headerLines path table ++ (scalarsOf table).map pairLine ++ emitNested (path ++ ".") table
  | _ => []

/-- The tables among the members, each under its path. -/
def emitNested (pre : String) : List (String × Json) → List (List Char)
  | [] => []
  | (k, v) :: ms => emitTable (pre ++ k) v ++ emitNested pre ms

end

/-- The lines of a file. -/
def lines (config : Config) : List (List Char) :=
  (scalarsOf config).map pairLine ++ emitNested "" config

/-- `serializeToml`. -/
def serializeToml (config : Config) : List Char :=
  (['\n'].intercalate (lines config)).dropWhile (· = '\n') ++ ['\n']

end Config.Toml
