import VolundCode.Lib.Effect
import VolundCode.Lib.Json

/-!
# Values of parsed JSON in ECMAScript

What ECMAScript does with a value of which it knows only that it has been parsed from JSON: to take
a property of it, to ask whether it counts as true, to make a text of it. A value that is not there
is `none`.
-/

namespace Js

/-- A value of parsed JSON, or `undefined`. -/
abbrev Value := Option Json

/-- What is thrown: `JSON.parse` rejects a text, a value does not allow what is done with it, or the
program refuses it with a code of its own. -/
inductive Thrown where
  | syntaxError (text : List Char)
  | typeError (what : String)
  | refused (code : String)

/-- `v?.key`. -/
def maybe (v : Value) (key : String) : Value :=
  match v with
  | some (.obj ms) => Json.member ms key
  | _ => none

/-- `v.key`. -/
def field (v : Value) (key : String) : Except Thrown Value :=
  match v with
  | none | some .null => .error (.typeError key)
  | v => .ok (maybe v key)

/-- `v ?? d`. -/
def orElse (v : Value) (d : Json) : Json :=
  match v with
  | none | some .null => d
  | some x => x

/-- The empty text. -/
def emptyText : Json :=
  .str ""

/-- A whole number. -/
def number (n : ℕ) : Json :=
  .num (Decimal.make n 0)

/-- Whether a value counts as true. -/
def truthy : Value → Bool
  | none | some .null => false
  | some (.bool b) => b
  | some (.num d) => decide (d.mantissa ≠ 0)
  | some (.str s) => decide (s ≠ "")
  | some (.arr _) | some (.obj _) => true

/-- `v === s` for a text. -/
def isText (v : Value) (s : String) : Bool :=
  match v with
  | some (.str t) => t = s
  | _ => false

mutual

/-- `String(v)`: an object with a member `toString`, which is no function, has no text. -/
def toText : Json → Except Thrown String
  | .null => .ok "null"
  | .bool true => .ok "true"
  | .bool false => .ok "false"
  | .num d => .ok (String.ofList d.print)
  | .str s => .ok s
  | .arr xs => do return ",".intercalate (← elementTexts xs)
  | .obj ms =>
    if (Json.member ms "toString").isSome then .error (.typeError "toString")
    else .ok "[object Object]"

/-- The texts of the elements of an array, where `null` has none. -/
def elementTexts : List Json → Except Thrown (List String)
  | [] => .ok []
  | .null :: xs => do return "" :: (← elementTexts xs)
  | x :: xs => do return (← toText x) :: (← elementTexts xs)

end

/-- `String(v)` for a value that may be `undefined`. -/
def valueText : Value → Except Thrown String
  | none => .ok "undefined"
  | some v => toText v

/-- `v?.[0]`. -/
def firstElement : Value → Value
  | some (.arr (x :: _)) => some x
  | some (.str s) => s.toList.head?.map fun c => .str (String.singleton c)
  | some (.obj ms) => Json.member ms "0"
  | _ => none

/-- The values that `for (const x of v)` goes over. -/
def elements : Json → Except Thrown (List Json)
  | .arr xs => .ok xs
  | .str s => .ok (s.toList.map fun c => .str (String.singleton c))
  | _ => .error (.typeError "Symbol.iterator")

/-- Whether two values are the same key of a `Map`. What has been parsed apart is never the same
array or object. -/
def sameKey : Value → Value → Bool
  | none, none => true
  | some .null, some .null => true
  | some (.bool a), some (.bool b) => a = b
  | some (.num a), some (.num b) => a = b
  | some (.str a), some (.str b) => a = b
  | _, _ => false

/-- A `Map` of values, in the order in which its keys came. -/
abbrev Table (α : Type) := List (Value × α)

/-- `map.get(key)`. -/
def Table.get {α : Type} (table : Table α) (key : Value) : Option α :=
  (table.find? fun entry => sameKey entry.1 key).map Prod.snd

/-- `map.set(key, a)`. -/
def Table.set {α : Type} (table : Table α) (key : Value) (a : α) : Table α :=
  match table with
  | [] => [(key, a)]
  | entry :: table =>
    if sameKey entry.1 key then (entry.1, a) :: table else entry :: Table.set table key a

/-- `JSON.parse(text)`. -/
def parseText (text : List Char) : Except Thrown Json :=
  match Json.parse text with
  | some v => .ok v
  | none => .error (.syntaxError text)

end Js
