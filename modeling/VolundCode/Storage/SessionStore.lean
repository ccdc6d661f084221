import VolundCode.Lib.Json
import VolundCode.Lib.Lines
import VolundCode.Lib.Run

/-!
# The session log

A session log is a file with a line for each event. An append writes the line at the end of the
file, and where the process dies meanwhile only a part of the line may have reached it. To load,
every line of the file is read.

The log returns the events whose append was completed, and of the others only whole ones
(`survives_of_whole`), as long as what an interrupted append leaves is nothing or all of an event,
nothing is appended behind an event without its line feed, and no event holds a character at
which the reader breaks lines but JSON does not escape.
-/

namespace Storage

open List

namespace SessionStore

open Run

/-! ### Events -/

/-- A payload as it is in memory: a JSON value that may hold bytes. -/
inductive PayloadValue where
  | null
  | bool (b : Bool)
  | num (d : Decimal)
  | str (s : String)
  | bytes (bs : List UInt8)
  | arr (xs : List PayloadValue)
  | obj (ms : List (String × PayloadValue))

namespace PayloadValue

mutual

/-- `containsInlineBinary`: there are bytes somewhere in the payload. -/
def containsInlineBinary : PayloadValue → Bool
  | null | bool _ | num _ | str _ => false
  | bytes _ => true
  | arr xs => elementsContain xs
  | obj ms => membersContain ms

/-- There are bytes in one of the elements. -/
def elementsContain : List PayloadValue → Bool
  | [] => false
  | x :: xs => containsInlineBinary x || elementsContain xs

/-- There are bytes in one of the members. -/
def membersContain : List (String × PayloadValue) → Bool
  | [] => false
  | (_, v) :: ms => containsInlineBinary v || membersContain ms

end

mutual

/-- What `JSON.stringify` takes the payload for. -/
def toJson : PayloadValue → Json
  | null => .null
  | bool b => .bool b
  | num d => .num d
  | str s => .str s
  | bytes bs => .obj (bs.zipIdx.map fun b => (toString b.2, .num (Decimal.make b.1.toNat 0)))
  | arr xs => .arr (elementsJson xs)
  | obj ms => .obj (membersJson ms)

/-- What it takes the elements for. -/
def elementsJson : List PayloadValue → List Json
  | [] => []
  | x :: xs => toJson x :: elementsJson xs

/-- What it takes the members for. -/
def membersJson : List (String × PayloadValue) → List (String × Json)
  | [] => []
  | (k, v) :: ms => (k, toJson v) :: membersJson ms

end

end PayloadValue

/-- An event of the log. The members of the objects in its payload stand in the order in which
ECMAScript enumerates them. -/
structure StoredEvent where
  id : String
  type : String
  sessionId : String
  turnId : Option String
  parentTurnId : Option String
  parentDepth : Option Decimal
  time : String
  payload : PayloadValue
  ordered : Json.Ordered payload.toJson

/-- The members of an event, whose version is 1. -/
def StoredEvent.members (e : StoredEvent) : List (String × Json) :=
  [("v", .num 1), ("id", .str e.id), ("type", .str e.type), ("sessionId", .str e.sessionId)] ++
    (e.turnId.map fun turnId => ("turnId", .str turnId)).toList ++
    (e.parentTurnId.map fun turnId => ("parentTurnId", .str turnId)).toList ++
    (e.parentDepth.map fun depth => ("parentDepth", .num depth)).toList ++
    [("at", .str e.time), ("payload", e.payload.toJson)]

/-- The value that is written for an event. -/
def StoredEvent.toJson (e : StoredEvent) : Json :=
  .obj e.members

/-- The text of an event. -/
def StoredEvent.text (e : StoredEvent) : List Char :=
  e.toJson.stringify

/-- The line of an event. -/
def StoredEvent.line (e : StoredEvent) : List Char :=
  e.text ++ ['\n']

/-! ### Appending and loading -/

/-- The text of the log, if there is a file. -/
abbrev LogFile := Option (List Char)

/-- Why an operation on the log throws. -/
inductive StoreError where
  | storage_session_binary_rejected
  | storage_session_version_unsupported
  | syntaxError
  | typeError
deriving DecidableEq

/-- `append`: the line of the event comes to the end of the file, unless its payload has bytes. -/
def append (file : LogFile) (e : StoredEvent) : Except StoreError LogFile :=
  if e.payload.containsInlineBinary then .error .storage_session_binary_rejected
  else .ok (some (file.getD [] ++ e.line))

/-- What has reached the file of a line that is cut after some characters: with `half`, the bytes
of the next character too, but not all of them, which are read as a replacement character. -/
def torn (line : List Char) (cut : ℕ) (half : Bool) : List Char :=
  line.take cut ++
    if half then
      match line.drop cut with
      | c :: _ => if 1 < c.utf8Size then ['\uFFFD'] else []
      | [] => []
    else []

/-- The file after an append that was interrupted while it wrote. -/
def interrupt (file : LogFile) (e : StoredEvent) (cut : ℕ) (half : Bool) : LogFile :=
  if e.payload.containsInlineBinary then file
  else some (file.getD [] ++ torn e.line cut half)

/-- What was read has a version above 1. -/
def newer : Json → Bool
  | .obj ms =>
    match Json.member ms "v" with
    | some (.num d) => decide (1 < d.toRat)
    | _ => false
  | _ => false

/-- The events of the lines, up to the first one that cannot be read. -/
def loadLines : List (List Char) → Except StoreError (List Json)
  | [] => .ok []
  | line :: rest =>
    if line = [] then loadLines rest
    else
      match Json.parse line with
      | none => .error .syntaxError
      | some .null => .error .typeError
      | some event =>
        if newer event then .error .storage_session_version_unsupported
        else (loadLines rest).map fun events => event :: events

/-- `load`: the events of the log, none where there is no file. -/
def load : LogFile → Except StoreError (List Json)
  | none => .ok []
  | some text => loadLines (Lines.lines text)

/-- The event starts a turn. -/
def startsTurn : Json → Bool
  | .obj ms =>
    match Json.member ms "type" with
    | some (.str type) => type = "turn.started"
    | _ => false
  | _ => false

/-- The positions of the events that start a turn. -/
def turnStarts (events : List Json) : List ℕ :=
  (events.zipIdx.filter fun e => startsTurn e.1).map Prod.snd

/-- `xs.at(i)`: a negative index counts from the end. -/
def elementAt (xs : List ℕ) (i : ℤ) : Option ℕ :=
  if 0 ≤ i then xs[i.toNat]?
  else if 0 ≤ xs.length + i then xs[(xs.length + i).toNat]?
  else none

/-- `resume`: the events from the start of one of the last turns on. -/
def resume (file : LogFile) (tailTurns : ℤ) : Except StoreError (List Json) :=
  (load file).map fun all => all.drop ((elementAt (turnStarts all) (-tailTurns)).getD 0)

/-! ### Runs -/

/-- What processes do to the log, one after the other: an append is completed, or interrupted
while it writes. An append that is interrupted before leaves no trace. -/
inductive Action where
  | append (e : StoredEvent)
  | interrupted (e : StoredEvent) (cut : ℕ) (half : Bool)

/-- The file after an action. An append that is rejected has thrown, and the process goes on. -/
def step (file : LogFile) : Action → Option LogFile
  | .append e =>
    match append file e with
    | .ok file' => some file'
    | .error _ => some file
  | .interrupted e cut half => some (interrupt file e cut half)

/-- The events that the log may return after the actions: the completed ones, and any of the
interrupted ones. -/
inductive Kept : List Action → List StoredEvent → Prop where
  | nil : Kept [] []
  | completed {as es e} (h : Kept as es) (he : e.payload.containsInlineBinary = false) :
    Kept (as ++ [.append e]) (es ++ [e])
  | rejected {as es e} (h : Kept as es) (he : e.payload.containsInlineBinary) :
    Kept (as ++ [.append e]) es
  | lost {as es e cut half} (h : Kept as es) : Kept (as ++ [.interrupted e cut half]) es
  | written {as es e cut half} (h : Kept as es) (he : e.payload.containsInlineBinary = false) :
    Kept (as ++ [.interrupted e cut half]) (es ++ [e])

/-- The log returns every completed event, in order, and it can be resumed from. -/
def Survives (as : List Action) (file : LogFile) : Prop :=
  ∃ es, Kept as es ∧ load file = .ok (es.map StoredEvent.toJson) ∧
    ∀ tailTurns, ∃ tail, resume file tailTurns = .ok tail ∧ tail <:+ es.map StoredEvent.toJson

/-- The file has no line without a line feed. -/
def EndsLine (file : LogFile) : Prop :=
  ∀ c ∈ (file.getD []).getLast?, c = '\n'

/-- The action leaves whole lines: it writes nothing, or it writes an event on a line of its own,
if not the line feed behind it, and the event has no characters that break lines. -/
def Whole (file : LogFile) : Action → Prop
  | .append e =>
    e.payload.containsInlineBinary ∨ EndsLine file ∧ Lines.Unbroken e.text
  | .interrupted e cut half =>
    e.payload.containsInlineBinary ∨ torn e.line cut half = [] ∨
      EndsLine file ∧ Lines.Unbroken e.text ∧
        (torn e.line cut half = e.text ∨ torn e.line cut half = e.line)

instance (file : LogFile) : Decidable (EndsLine file) :=
  Option.decidableForallMem (p := fun c => c = '\n') (file.getD []).getLast?

instance (file : LogFile) : ∀ a, Decidable (Whole file a)
  | .append _ => inferInstanceAs (Decidable (_ ∨ _ ∧ _))
  | .interrupted _ _ _ => inferInstanceAs (Decidable (_ ∨ _ ∨ _ ∧ _ ∧ (_ ∨ _)))

/-! ### The text of an event -/

/-- An optional member has the key it would have, if it is there. -/
theorem keys_of_optional {α : Type} {key : String} {value : α → Json} (o : Option α) :
  ((o.map fun a => (key, value a)).toList.map Prod.fst).Sublist [key]
  := by
  cases o with
  | none => exact nil_sublist _
  | some a => exact Sublist.refl _

/-- The keys of an event are some of these, in this order. -/
theorem StoredEvent.keys_sublist (e : StoredEvent) :
  (e.members.map Prod.fst).Sublist
    ["v", "id", "type", "sessionId", "turnId", "parentTurnId", "parentDepth", "at", "payload"]
  := by
  simp only [members, map_append]
  exact ((((Sublist.refl ["v", "id", "type", "sessionId"]).append
    (keys_of_optional e.turnId)).append (keys_of_optional e.parentTurnId)).append
    (keys_of_optional e.parentDepth)).append (Sublist.refl ["at", "payload"])

/-- The objects in the value of an event are ordered. -/
theorem StoredEvent.toJson_ordered (e : StoredEvent) :
  Json.Ordered e.toJson
  := by
  rw [toJson, Json.Ordered]
  constructor
  · apply Json.assemble_of_names
    · apply e.keys_sublist.nodup
      decide
    have hnames : ∀ k ∈ ["v", "id", "type", "sessionId", "turnId", "parentTurnId", "parentDepth",
        "at", "payload"], Json.arrayIndex k = none := by
      decide
    exact fun k hk => hnames k (e.keys_sublist.subset hk)
  have hp := e.ordered
  rw [Json.orderedMembers_iff]
  simp only [members, forall_mem_append, forall_mem_cons]
  simp [Json.Ordered, hp]

/-- What is written for an event is read back. -/
theorem StoredEvent.parse_text (e : StoredEvent) :
  Json.parse e.text = some e.toJson
  := Json.parse_stringify e.toJson_ordered

/-- The text of an event is not empty. -/
theorem StoredEvent.text_ne_nil (e : StoredEvent) :
  e.text ≠ []
  := by
  intro h
  have hread := e.parse_text
  rw [h] at hread
  cases hread

/-- The text of an event has no line feeds. -/
theorem StoredEvent.newline_notMem_text (e : StoredEvent) :
  '\n' ∉ e.text
  := by
  intro h
  apply absurd (Json.stringify_printable e.toJson '\n' h)
  decide

/-- An event has the version that is supported. -/
theorem StoredEvent.newer_toJson (e : StoredEvent) :
  newer e.toJson = false
  := by
  have hv : Json.member e.members "v" = some (.num 1) := rfl
  simp only [newer, toJson, hv]
  decide +kernel

/-! ### What is loaded -/

/-- Lines that hold events are loaded as these. -/
theorem loadLines_text (es : List StoredEvent) :
  loadLines (es.map StoredEvent.text) = .ok (es.map StoredEvent.toJson)
  := by
  induction es with
  | nil => rfl
  | cons e es ih =>
  rw [map_cons, loadLines, if_neg e.text_ne_nil, e.parse_text, ih]
  change (if newer e.toJson = true then _ else _) = _
  rw [e.newer_toJson]
  rfl

/-- The text of a log with these lines, and at its end an event that lacks its line feed. -/
def logText (es : List StoredEvent) (last : Option StoredEvent) : List Char :=
  (es.map StoredEvent.text).flatMap (· ++ ['\n']) ++ (last.map StoredEvent.text).getD []

/-- A log of whole events is loaded as these. -/
theorem loadLines_logText {es : List StoredEvent} {last : Option StoredEvent}
    (hes : ∀ e ∈ es ++ last.toList, Lines.Unbroken e.text) :
  loadLines (Lines.lines (logText es last)) = .ok ((es ++ last.toList).map StoredEvent.toJson)
  := by
  rw [logText, Lines.lines_flatMap]
  · have hlast : Lines.lines ((last.map StoredEvent.text).getD []) =
        last.toList.map StoredEvent.text := by
      cases last with
      | none => rfl
      | some e =>
        change Lines.lines e.text = [e.text]
        rw [Lines.lines_last (hes e (by simp)), if_neg e.text_ne_nil]
    rw [hlast, ← map_append]
    exact loadLines_text _
  · intro s hs
    obtain ⟨e, he, rfl⟩ := mem_map.mp hs
    exact hes e (mem_append_left _ he)

variable {file : LogFile}

/-- A log that ends with a line feed lacks none. -/
theorem last_of_endsLine {es : List StoredEvent} {last : Option StoredEvent}
    (htext : file.getD [] = logText es last) (h : EndsLine file) :
  last = none
  := by
  cases last with
  | none => rfl
  | some e =>
  obtain ⟨c, hc⟩ : ∃ c, c ∈ e.text.getLast? := ⟨_, List.getLast?_eq_some_getLast e.text_ne_nil⟩
  have hend : c ∈ (file.getD []).getLast? := by
    rw [htext, logText]
    exact mem_getLast?_append_of_mem_getLast? hc
  obtain rfl := h c hend
  exact (e.newline_notMem_text (mem_of_mem_getLast? hc)).elim

/-! ### Runs -/

/-- The log holds whole events, which are as it may return them after the actions. -/
def Holds (as : List Action) (file : LogFile) : Prop :=
  ∃ es last, Kept as (es ++ last.toList) ∧ file.getD [] = logText es last ∧
    ∀ e ∈ es ++ last.toList, Lines.Unbroken e.text

variable {as : List Action}

/-- An event may be written behind a log that ends with a line feed. -/
theorem Holds.extend {a : Action} {e : StoredEvent}
    {written : List Char} (h : Holds as file) (hend : EndsLine file)
    (he : Lines.Unbroken e.text) (hw : written = e.text ∨ written = e.line)
    (hkept : ∀ es, Kept as es → Kept (as ++ [a]) (es ++ [e])) :
  Holds (as ++ [a]) (some (file.getD [] ++ written))
  := by
  obtain ⟨es, last, hk, htext, hes⟩ := h
  obtain rfl := last_of_endsLine htext hend
  rw [Option.toList_none, append_nil] at hk hes
  have hall : ∀ d ∈ es ++ [e], Lines.Unbroken d.text := by
    simp only [forall_mem_append, forall_mem_singleton]
    exact ⟨hes, he⟩
  rcases hw with rfl | rfl
  · use es, some e, hkept es hk
    constructor
    · rw [htext]
      simp [logText]
    · exact hall
  use es ++ [e], none
  rw [Option.toList_none, append_nil]
  use hkept es hk
  constructor
  · rw [htext]
    simp [logText, StoredEvent.line]
  · exact hall

/-- What the log holds after an action that leaves no event. -/
theorem Holds.skip {file' : LogFile} {a : Action} (h : Holds as file)
    (hfile : file'.getD [] = file.getD []) (hkept : ∀ es, Kept as es → Kept (as ++ [a]) es) :
  Holds (as ++ [a]) file'
  := by
  obtain ⟨es, last, hk, htext, hes⟩ := h
  use es, last, hkept _ hk
  rw [hfile]
  use htext

/-- An action that leaves whole lines leaves a log of whole events. -/
theorem Holds.step {file' : LogFile} {a : Action} (h : Holds as file)
    (hok : Whole file a) (hstep : step file a = some file') :
  Holds (as ++ [a]) file'
  := by
  cases a with
  | append e =>
    cases hb : e.payload.containsInlineBinary with
    | true =>
      simp only [SessionStore.step, append, hb] at hstep
      cases hstep
      exact h.skip rfl fun es hk => hk.rejected hb
    | false =>
    simp only [SessionStore.step, append, hb] at hstep
    cases hstep
    rcases hok with hbin | ⟨hend, he⟩
    · rw [hb] at hbin
      cases hbin
    · exact h.extend hend he (Or.inr rfl) fun es hk => hk.completed hb
  | interrupted e cut half =>
  cases hstep
  cases hb : e.payload.containsInlineBinary with
  | true =>
    rw [interrupt, hb]
    exact h.skip rfl fun es hk => hk.lost
  | false =>
  rw [interrupt, hb]
  rcases hok with hbin | hnone | ⟨hend, he, hw⟩
  · rw [hb] at hbin
    cases hbin
  · rw [hnone, append_nil]
    exact h.skip rfl fun es hk => hk.lost
  · exact h.extend hend he hw fun es hk => hk.written hb

/-- A log of whole events returns them, and can be resumed from. -/
theorem Holds.survives (h : Holds as file) :
  Survives as file
  := by
  obtain ⟨es, last, hk, htext, hes⟩ := h
  have hload : load file = .ok ((es ++ last.toList).map StoredEvent.toJson) := by
    rw [← loadLines_logText hes, ← htext]
    cases file with
    | none | some text => rfl
  use es ++ last.toList, hk, hload
  intro tailTurns
  rw [resume, hload]
  exact ⟨_, rfl, drop_suffix _ _⟩

/-- In every run whose actions leave whole lines, the log returns the completed events. -/
theorem survives_of_whole
    (as : List Action) (file : LogFile) (hok : Guarded step Whole none as)
    (hrun : run step none as = some file) :
  Survives as file
  := by
  have hstart : Holds [] none := ⟨[], none, Kept.nil, rfl, by simp⟩
  have hstep : ∀ past s a t, Holds past s → Whole s a → step s a = some t →
      Holds (past ++ [a]) t := fun past s a t h hok hst => h.step hok hst
  exact (Guarded.invariant_history hstep hstart hok hrun).survives

/-- An event of this id that starts a turn. -/
def sampleEvent (id : String) : StoredEvent where
  id := id
  type := "turn.started"
  sessionId := "s"
  turnId := some "t"
  parentTurnId := none
  parentDepth := none
  time := "2026-01-01"
  payload := .null
  ordered := True.intro

/-- An append, one that is interrupted in the midst of its event, and another append. -/
def tornRun : List Action :=
  [.append (sampleEvent "a"), .interrupted (sampleEvent "b") 9 false, .append (sampleEvent "c")]

/-- An append, two that are interrupted before and behind their event, and another append. -/
def wholeRun : List Action :=
  [.append (sampleEvent "a"), .interrupted (sampleEvent "b") 0 false,
    .interrupted (sampleEvent "b") (sampleEvent "b").line.length false, .append (sampleEvent "c")]

/-- Behind the part of an event, the log cannot be loaded any more. -/
theorem not_survives_torn :
  ¬ ∀ as file, run step none as = some file → Survives as file
  := by
  intro h
  have hload : ((run step none tornRun).any fun file => (load file).toOption.isNone) := by
    decide +kernel
  obtain ⟨file, hrun, hfile⟩ := Option.any_eq_true _ _ |>.mp hload
  obtain ⟨es, -, hes, -⟩ := h tornRun file hrun
  rw [hes] at hfile
  cases hfile

theorem survives_of_whole_run :
  ∃ file, run step none wholeRun = some file ∧ Survives wholeRun file
  := by
  have hok : Guarded step Whole none wholeRun := by decide +kernel
  exact ⟨_, rfl, survives_of_whole wholeRun _ hok rfl⟩

end SessionStore

end Storage
