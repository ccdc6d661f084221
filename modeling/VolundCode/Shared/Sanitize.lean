import VolundCode.Lib.Ecma

/-!
# Redacted texts

`sanitize` takes out of a text what looks like a secret: the token of a bearer, the value of a
parameter of a query or of a setting with the name of a secret, and the user of an address. Each is
found by a rule, and the rules are applied one after the other. A text in which no rule finds
anything stays as it is (`sanitize_eq_self`).
-/

namespace Shared.Sanitize

open Ecma

/-- A rule: the lengths of what may stand before the secret, by what is before and by what follows,
the characters of a secret, and what has to stand after it. -/
structure Rule where
  heads : Option Char → List Char → List ℕ
  secret : Char → Bool
  after : List Char

/-- How many characters of a text stay, and how many are replaced, if the rule finds a secret. -/
def Rule.matchAt (rule : Rule) (before : Option Char) (text : List Char) : Option (ℕ × ℕ) :=
  (rule.heads before text).findSome? fun head =>
    let length := ((text.drop head).takeWhile rule.secret).length
    if 0 < length ∧ rule.after.isPrefixOf (text.drop (head + length)) then some (head, length)
    else none

/-- `text.replace(rule, '$1[REDACTED]')`, where `skip` characters have already been read. -/
def Rule.redact (rule : Rule) : ℕ → Option Char → List Char → List Char
  | _, _, [] => []
  | skip + 1, _, c :: text => rule.redact skip (some c) text
  | 0, before, c :: text =>
    match rule.matchAt before (c :: text) with
    | some (head, length) =>
      (c :: text).take head ++ "[REDACTED]".toList ++ rule.redact (head + length - 1) (some c) text
    | none => c :: rule.redact 0 (some c) text

/-- The lengths of those of the words with which the text begins, in small or capital letters. -/
def words (ws : List String) (text : List Char) : List ℕ :=
  (ws.filter fun w => w.toList.isPrefixOf (text.map Char.toLower)).map String.length

/-- The number of white space characters at a place. -/
def spaces (text : List Char) (place : ℕ) : ℕ :=
  ((text.drop place).takeWhile isSpace).length

/-- A character of `\w`. -/
def isWord (c : Char) : Bool :=
  c.isAlphanum || c == '_'

/-- `/(bearer\s+)[^\s]+/gi` -/
def bearer : Rule where
  heads _ text := (words ["bearer"] text).filterMap fun head =>
    if spaces text head = 0 then none else some (head + spaces text head)
  secret c := !isSpace c
  after := []

/-- `/([?&](?:token|key|secret|code)=)[^&\s]+/gi` -/
def query : Rule where
  heads _ text :=
    match text with
    | [] => []
    | c :: rest =>
      if c = '?' ∨ c = '&' then
        (words ["token=", "key=", "secret=", "code="] rest).map fun head => head + 1
      else []
  secret c := !(c == '&' || isSpace c)
  after := []

/-- `/\b((?:api[_-]?key|token|secret|password|oauth[_-]?code)\s*[=:]\s*)[^\s&,;]+/gi` -/
def setting : Rule where
  heads before text :=
    if before.any isWord then []
    else
      (words ["apikey", "api_key", "api-key", "token", "secret", "password", "oauthcode",
        "oauth_code", "oauth-code"] text).filterMap fun head =>
        let head := head + spaces text head
        match text[head]? with
        | some c => if c = '=' ∨ c = ':' then some (head + 1 + spaces text (head + 1)) else none
        | none => none
  secret c := !(isSpace c || c == '&' || c == ',' || c == ';')
  after := []

/-- `/(https?:\/\/)[^/@\s]+@/gi` -/
def address : Rule where
  heads _ text := words ["http://", "https://"] text
  secret c := !(c == '/' || c == '@' || isSpace c)
  after := ['@']

/-- The rules in their order. -/
def rules : List Rule :=
  [bearer, query, setting, address]

/-- `sanitize(text)`. -/
def sanitize (text : String) : String :=
  String.ofList (rules.foldl (fun text rule => rule.redact 0 none text) text.toList)

/-- A rule that finds nothing in a text does not change it. -/
theorem Rule.redact_eq_self {rule : Rule} {before : Option Char} {text : List Char}
    (h : ∀ i < text.length, rule.matchAt ((before.toList ++ text.take i).getLast?)
      (text.drop i) = none) :
  rule.redact 0 before text = text
  := by
  induction text generalizing before with
  | nil => rfl
  | cons c text ih =>
  have hhead : rule.matchAt before (c :: text) = none := by
    have h0 := h 0 (by simp)
    cases before <;> simpa using h0
  rw [Rule.redact, hhead]
  dsimp only
  rw [ih]
  intro i hi
  have hnext := h (i + 1) (by simpa using hi)
  rw [List.take_succ_cons, List.drop_succ_cons, List.getLast?_append, List.getLast?_cons] at hnext
  rw [Option.toList_some, List.singleton_append, List.getLast?_cons]
  exact hnext

/-- A text in which no rule finds anything. -/
theorem sanitize_eq_self {text : String} (h : ∀ rule ∈ rules, ∀ i < text.toList.length,
      rule.matchAt ((text.toList.take i).getLast?) (text.toList.drop i) = none) :
  sanitize text = text
  := by
  have hrules (rs : List Rule) (hrs : ∀ rule ∈ rs, rule ∈ rules) :
      rs.foldl (fun text rule => rule.redact 0 none text) text.toList = text.toList := by
    induction rs with
    | nil => rfl
    | cons rule rs ih =>
    rw [List.foldl_cons, Rule.redact_eq_self (h rule (hrs rule List.mem_cons_self))]
    apply ih
    intro r hr
    apply hrs r (List.mem_cons_of_mem rule hr)
  rw [sanitize, hrules rules fun _ hrule => hrule, String.ofList_toList]

example : sanitize "Authorization: Bearer abc, api_key = x" =
    "Authorization: Bearer [REDACTED] api_key = [REDACTED]" := by
  decide +kernel

end Shared.Sanitize
