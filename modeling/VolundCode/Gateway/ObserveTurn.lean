import VolundCode.Lib.Json
import Mathlib.Data.List.TakeWhile

/-!
# The outcome of a turn

A chat completion listens to the envelopes of its hub until the turn is over. The runs of subagents
put their events on the same stream, with the turn of the parent as a tag, and the listener does
not look at the tag. It reports the turn itself just if no event that ends a run of a subagent
comes before the end of the turn, no text of a subagent does, and the error that is reported for a
failure would be the same without the errors of subagents (`reports_iff`). Otherwise a subagent
that completes ends the completion (`not_reports`).
-/

namespace Gateway

open Json List

/-! ### Envelopes -/

/-- What a hub sends: the kind of an event and the event, which may be anything. -/
structure GatewayEnvelope where
  kind : String
  event : Json

/-- `value?.key`. -/
def field (key : String) : Json → Option Json
  | .obj ms => member ms key
  | _ => none

/-- The text of a field, if it is one. -/
def textField (key : String) (v : Json) : Option String :=
  match field key v with
  | some (.str s) => some s
  | _ => none

/-- The field of a value that may not be there. -/
def inner (v : Option Json) (key : String) : Option Json :=
  v.bind (field key)

/-- The text of a field of a value that may not be there. -/
def innerText (v : Option Json) (key : String) : Option String :=
  v.bind (textField key)

/-- The envelope has an event of this type and kind. -/
def GatewayEnvelope.is (e : GatewayEnvelope) (kind type : String) : Bool :=
  e.kind = kind && textField "type" e.event = some type

/-- The event is one of a run of a subagent: `forward` has put the turn of the parent on it. -/
def GatewayEnvelope.forwarded (e : GatewayEnvelope) : Bool :=
  (field "parentTurnId" e.event).isSome

/-! ### Observing a turn -/

inductive TurnStatus where
  | completed
  | aborted
  | failed
  deriving DecidableEq, Repr

structure TurnOutcome where
  status : TurnStatus
  text : String
  usage : Option Json
  detail : Option String

/-- What `observeTurn` keeps: the text so far, the last error and the outcome once it is settled. -/
structure Observation where
  text : String
  lastError : Option String
  outcome : Option TurnOutcome

/-- `resolve`: only the first outcome counts. -/
def Observation.resolve (o : Observation) (outcome : TurnOutcome) : Observation :=
  { o with outcome := o.outcome.or (some outcome) }

/-- The listener of `observeTurn`. -/
def observe (o : Observation) (e : GatewayEnvelope) : Observation :=
  let payload := field "payload" e.event
  if e.is "core" "stream.delta" then
    match innerText payload "kind", innerText payload "fragment" with
    | some "text", some fragment => { o with text := o.text ++ fragment }
    | _, _ => o
  else if e.is "core" "error.raised" then
    match innerText (inner payload "context") "message" with
    | some message => { o with lastError := some message }
    | none => { o with lastError := some ((innerText payload "code").getD "unknown runner error") }
  else if e.is "core" "turn.completed" then
    o.resolve ⟨.completed, o.text, inner payload "usage", none⟩
  else if e.is "core" "turn.aborted" then
    let reason := innerText payload "reason"
    if reason = some "user_interrupt" then o.resolve ⟨.aborted, o.text, none, reason⟩
    else
      o.resolve ⟨.failed, o.text, none, some ((o.lastError.or reason).getD "turn aborted")⟩
  else if e.is "view" "turn.failed" then
    o.resolve ⟨.failed, o.text, none, some ((textField "message" e.event).getD "turn failed")⟩
  else o

/-- `observeTurn`, after the envelopes. -/
def observeTurn (es : List GatewayEnvelope) : Observation :=
  es.foldl observe ⟨"", none, none⟩

/-! ### What an envelope says -/

/-- The text that an envelope adds. -/
def delta (e : GatewayEnvelope) : String :=
  if e.is "core" "stream.delta" then
    let payload := field "payload" e.event
    match innerText payload "kind", innerText payload "fragment" with
    | some "text", some fragment => fragment
    | _, _ => ""
  else ""

/-- The error that an envelope raises. -/
def raised (e : GatewayEnvelope) : Option String :=
  if e.is "core" "error.raised" then
    (innerText (inner (field "payload" e.event) "context") "message").or
      (some ((innerText (field "payload" e.event) "code").getD "unknown runner error"))
  else none

/-- The reason for which a turn is aborted. -/
def reasonOf (e : GatewayEnvelope) : Option String :=
  innerText (field "payload" e.event) "reason"

/-- The envelope says that a turn is aborted, but not by the user. -/
def GatewayEnvelope.breaksOff (e : GatewayEnvelope) : Bool :=
  e.is "core" "turn.aborted" && reasonOf e ≠ some "user_interrupt"

/-- What is said about a turn that is broken off after an error. -/
def detailOf (e : GatewayEnvelope) (lastError : Option String) : String :=
  (lastError.or (reasonOf e)).getD "turn aborted"

/-- The outcome that an envelope settles, after a text and an error. -/
def outcomeOf (e : GatewayEnvelope) (text : String) (lastError : Option String) :
    Option TurnOutcome :=
  if e.is "core" "turn.completed" then
    some ⟨.completed, text, inner (field "payload" e.event) "usage", none⟩
  else if e.breaksOff then some ⟨.failed, text, none, some (detailOf e lastError)⟩
  else if e.is "core" "turn.aborted" then some ⟨.aborted, text, none, some "user_interrupt"⟩
  else if e.is "view" "turn.failed" then
    some ⟨.failed, text, none, some ((textField "message" e.event).getD "turn failed")⟩
  else none

/-- The envelope says that a turn is over. -/
def GatewayEnvelope.terminal (e : GatewayEnvelope) : Bool :=
  (outcomeOf e "" none).isSome

variable {e : GatewayEnvelope}

/-- An event has one type. -/
theorem is_eq_false {kind kind' type type' : String} (h : e.is kind type) (hne : type ≠ type') :
  e.is kind' type' = false
  := by
  simp only [GatewayEnvelope.is, Bool.and_eq_true, decide_eq_true_eq] at h
  rw [GatewayEnvelope.is, h.2]
  simp [hne]

/-- What an envelope changes. -/
theorem observe_eq (o : Observation) (e : GatewayEnvelope) :
  observe o e =
    ⟨o.text ++ delta e, (raised e).or o.lastError, o.outcome.or (outcomeOf e o.text o.lastError)⟩
  := by
  rw [observe, delta, raised, outcomeOf, GatewayEnvelope.breaksOff]
  cases hdelta : e.is "core" "stream.delta" with
  | true =>
    simp only [is_eq_false hdelta (by decide : "stream.delta" ≠ "error.raised"),
      is_eq_false hdelta (by decide : "stream.delta" ≠ "turn.completed"),
      is_eq_false hdelta (by decide : "stream.delta" ≠ "turn.aborted"),
      is_eq_false hdelta (by decide : "stream.delta" ≠ "turn.failed"), if_true, Bool.false_and,
      Bool.false_eq_true, if_false, Option.none_or, Option.or_none]
    split
    · rfl
    · rw [String.append_empty]
  | false =>
  simp only [Bool.false_eq_true, if_false, String.append_empty]
  cases hraised : e.is "core" "error.raised" with
  | true =>
    simp only [is_eq_false hraised (by decide : "error.raised" ≠ "turn.completed"),
      is_eq_false hraised (by decide : "error.raised" ≠ "turn.aborted"),
      is_eq_false hraised (by decide : "error.raised" ≠ "turn.failed"), if_true,
      Bool.false_and, Bool.false_eq_true, if_false, Option.or_none]
    split
    · rename_i message hmsg
      rw [hmsg]
      rfl
    · rename_i hmsg
      rw [hmsg]
      rfl
  | false =>
  simp only [Bool.false_eq_true, if_false, Option.none_or]
  cases hcompl : e.is "core" "turn.completed" with
  | true => rfl
  | false =>
  simp only [Bool.false_eq_true, if_false]
  cases habort : e.is "core" "turn.aborted" with
  | true =>
    simp only [if_true, Bool.true_and, detailOf, reasonOf]
    by_cases hreason : innerText (field "payload" e.event) "reason" = some "user_interrupt"
    · simp only [hreason, ne_eq, not_true, decide_false, Bool.false_eq_true, if_true,
        if_false]
      rfl
    · simp only [hreason, ne_eq, not_false_iff, decide_true, if_true, if_false]
      rfl
  | false =>
  simp only [Bool.false_and, Bool.false_eq_true, if_false]
  split_ifs
  · rfl
  · rw [Option.or_none]

/-! ### The report of a turn -/

/-- The text of envelopes. -/
def textOf (es : List GatewayEnvelope) : String :=
  es.foldl (fun text e => text ++ delta e) ""

/-- The last error that envelopes raise. -/
def lastErrorOf (es : List GatewayEnvelope) : Option String :=
  es.foldl (fun last e => (raised e).or last) none

/-- What the first envelope that says that a turn is over says about it. -/
def report (es : List GatewayEnvelope) : Option TurnOutcome :=
  let before := es.takeWhile fun e => !e.terminal
  match es.dropWhile fun e => !e.terminal with
  | [] => none
  | e :: _ => outcomeOf e (textOf before) (lastErrorOf before)

/-- The envelopes of the turn itself. -/
def own (es : List GatewayEnvelope) : List GatewayEnvelope :=
  es.filter fun e => !e.forwarded

/-- At every time the completion reports what the envelopes of the turn itself say. -/
def Reports (es : List GatewayEnvelope) : Prop :=
  ∀ n, (observeTurn (es.take n)).outcome = report (own (es.take n))

theorem terminal_iff (text : String) (lastError : Option String) :
  (outcomeOf e text lastError).isSome = e.terminal
  := by
  rw [GatewayEnvelope.terminal, outcomeOf, outcomeOf]
  split_ifs
  all_goals rfl

theorem outcomeOf_eq_none (h : e.terminal = false) (text : String) (lastError : Option String) :
  outcomeOf e text lastError = none
  := by
  rw [← Option.isSome_eq_false_iff.trans Option.isNone_iff_eq_none, terminal_iff, h]

theorem textOf_concat (es : List GatewayEnvelope) (e : GatewayEnvelope) :
  textOf (es ++ [e]) = textOf es ++ delta e
  := foldl_append

theorem lastErrorOf_concat (es : List GatewayEnvelope) (e : GatewayEnvelope) :
  lastErrorOf (es ++ [e]) = (raised e).or (lastErrorOf es)
  := foldl_append

/-- What is kept is the text and the last error of all envelopes. -/
theorem observeTurn_eq (es : List GatewayEnvelope) :
  (observeTurn es).text = textOf es ∧ (observeTurn es).lastError = lastErrorOf es
  := by
  induction es using List.reverseRecOn with
  | nil => exact ⟨rfl, rfl⟩
  | append_singleton es e ih =>
    have hstep : observeTurn (es ++ [e]) = observe (observeTurn es) e := foldl_append
    rw [hstep, observe_eq, textOf_concat, lastErrorOf_concat, ih.1, ih.2]
    exact ⟨rfl, rfl⟩

theorem outcome_concat (es : List GatewayEnvelope) (e : GatewayEnvelope) :
  (observeTurn (es ++ [e])).outcome =
    (observeTurn es).outcome.or (outcomeOf e (textOf es) (lastErrorOf es))
  := by
  have hstep : observeTurn (es ++ [e]) = observe (observeTurn es) e := foldl_append
  rw [hstep, observe_eq, (observeTurn_eq es).1, (observeTurn_eq es).2]

variable {es : List GatewayEnvelope}

/-- Envelopes of which none says that a turn is over settle nothing. -/
theorem report_of_forall (h : ∀ e ∈ es, e.terminal = false) :
  report es = none
  := by
  have hdrop : es.dropWhile (fun e => !e.terminal) = [] := by
    rw [dropWhile_eq_nil_iff]
    intro e he
    rw [h e he]
    rfl
  rw [report, hdrop]

/-- The first envelope that says that a turn is over settles its outcome. -/
theorem report_of_first
    {before after : List GatewayEnvelope}
    (hpre : ∀ f ∈ before, f.terminal = false) (he : e.terminal) :
  report (before ++ e :: after) = outcomeOf e (textOf before) (lastErrorOf before)
  := by
  have hpass : ∀ f ∈ before, (!f.terminal) = true := by
    intro f hf
    rw [hpre f hf]
    rfl
  have hdrop : (before ++ e :: after).dropWhile (fun e => !e.terminal) = e :: after := by
    rw [dropWhile_append_of_pos hpass, dropWhile_cons, he]
    rfl
  have htake : (before ++ e :: after).takeWhile (fun e => !e.terminal) = before := by
    rw [takeWhile_append_of_pos hpass, takeWhile_cons, he]
    simp
  rw [report, hdrop, htake]

/-- The first envelope of a list that meets a condition, if there is one. -/
theorem exists_first {α : Type*} (p : α → Bool) (l : List α) :
  (∀ x ∈ l, p x = false) ∨
    ∃ before x after, l = before ++ x :: after ∧ p x ∧ ∀ y ∈ before, p y = false
  := by
  induction l with
  | nil => exact Or.inl (forall_mem_nil _)
  | cons x l ih =>
  cases hx : p x with
  | true => exact Or.inr ⟨[], x, l, rfl, hx, forall_mem_nil _⟩
  | false =>
    rcases ih with hall | ⟨before, y, after, rfl, hy, hpre⟩
    · exact Or.inl (forall_mem_cons.mpr ⟨hx, hall⟩)
    · exact Or.inr ⟨x :: before, y, after, rfl, hy, forall_mem_cons.mpr ⟨hx, hpre⟩⟩

/-- What is observed is what all the envelopes say, those of subagents too. -/
theorem observeTurn_outcome (es : List GatewayEnvelope) :
  (observeTurn es).outcome = report es
  := by
  induction es using List.reverseRecOn with
  | nil => rfl
  | append_singleton es e ih =>
  rw [outcome_concat, ih]
  rcases exists_first GatewayEnvelope.terminal es with hall | ⟨before, f, after, rfl, hf, hpre⟩
  · rw [report_of_forall hall, Option.none_or]
    cases he : e.terminal with
    | true => rw [report_of_first hall he]
    | false =>
    rw [outcomeOf_eq_none he, report_of_forall]
    intro f hf
    rcases mem_append.mp hf with hf | hf
    · exact hall f hf
    · rw [mem_singleton.mp hf, he]
  obtain ⟨outcome, hout⟩ : ∃ outcome, outcomeOf f (textOf before) (lastErrorOf before) =
      some outcome := Option.isSome_iff_exists.mp ((terminal_iff _ _).trans hf)
  rw [append_assoc, cons_append, report_of_first hpre hf, report_of_first hpre hf, hout]
  rfl

/-! ### When the turn itself is reported -/

/-- The envelope is the first one of the turn itself that says that it is over. -/
structure FirstOwn (es before : List GatewayEnvelope) (e : GatewayEnvelope) : Prop where
  split : ∃ after, es = before ++ e :: after
  terminal : e.terminal
  top : e.forwarded = false
  first : ∀ f ∈ before, f.terminal → f.forwarded

/-- Subagents do not disturb the report: none of them ends before the turn does, none has a text
before the turn ends, and the detail of a failure is the same without their errors. -/
structure Undisturbed (es : List GatewayEnvelope) : Prop where
  ends : ∀ before e after, es = before ++ e :: after → e.terminal → e.forwarded →
    ∃ f ∈ before, f.terminal ∧ f.forwarded = false
  texts : ∀ before e, FirstOwn es before e → ∀ f ∈ before, f.forwarded → delta f = ""
  details : ∀ before e, FirstOwn es before e → e.breaksOff →
    detailOf e (lastErrorOf before) = detailOf e (lastErrorOf (own before))

/-- Before the end of an undisturbed turn nothing says that a turn is over. -/
theorem FirstOwn.before_terminal
    {before : List GatewayEnvelope} (hfirst : FirstOwn es before e)
    (hends : ∀ before e after, es = before ++ e :: after → e.terminal →
      e.forwarded → ∃ f ∈ before, f.terminal ∧ f.forwarded = false) :
  ∀ f ∈ before, f.terminal = false
  := by
  intro f hf
  by_contra hterm
  rw [Bool.not_eq_false] at hterm
  obtain ⟨after, rfl⟩ := hfirst.split
  obtain ⟨start, rest, rfl⟩ := append_of_mem hf
  obtain ⟨g, hg, hgterminal, hgown⟩ := hends start f (rest ++ e :: after)
    (by rw [append_assoc, cons_append]) hterm (hfirst.first f hf hterm)
  rw [hfirst.first g (mem_append_left _ hg) hgterminal] at hgown
  cases hgown

/-- The outcomes of two texts and errors are the same just if the texts are, and the details. -/
theorem outcomeOf_eq_iff
    (he : e.terminal) {text text' : String} {last last' : Option String} :
  outcomeOf e text last = outcomeOf e text' last' ↔
    text = text' ∧ (e.breaksOff → detailOf e last = detailOf e last')
  := by
  rw [GatewayEnvelope.terminal, outcomeOf] at he
  rw [outcomeOf, outcomeOf]
  split_ifs at he ⊢ with hcompl hbreaks
  · have hno : e.breaksOff = false := by
      rw [GatewayEnvelope.breaksOff, is_eq_false hcompl (by decide)]
      rfl
    simp [hno]
  · simp [hbreaks]
  · simp [hbreaks]
  · simp [hbreaks]
  · cases he

/-- The text of the turn itself is the whole text just if the texts of subagents are empty. -/
theorem textOf_own_iff :
  textOf es = textOf (own es) ↔ ∀ e ∈ es, e.forwarded → delta e = ""
  := by
  have hlen : ∀ es : List GatewayEnvelope, (textOf (own es)).length ≤ (textOf es).length := by
    intro es
    induction es using List.reverseRecOn with
    | nil => exact le_refl _
    | append_singleton es e ih =>
    rw [textOf_concat, String.length_append, own, filter_append]
    cases he : e.forwarded with
    | true =>
      simp only [filter_cons, he, Bool.not_true, Bool.false_eq_true, if_false,
        filter_nil, append_nil]
      exact ih.trans (Nat.le_add_right _ _)
    | false =>
      simp only [filter_cons, he, Bool.not_false, if_true, filter_nil]
      rw [textOf_concat, String.length_append]
      exact Nat.add_le_add_right ih _
  induction es using List.reverseRecOn with
  | nil => exact ⟨fun _ => forall_mem_nil _, fun _ => rfl⟩
  | append_singleton es e ih =>
  have hconcat : (∀ f ∈ es ++ [e], f.forwarded → delta f = "") ↔
      (∀ f ∈ es, f.forwarded → delta f = "") ∧ (e.forwarded → delta e = "") := by
    simp [or_imp, forall_and]
  rw [hconcat, textOf_concat, own, filter_append]
  cases he : e.forwarded with
  | true =>
    simp only [filter_cons, he, Bool.not_true, Bool.false_eq_true, if_false,
      filter_nil, append_nil, true_imp_iff]
    change textOf es ++ delta e = textOf (own es) ↔ _
    constructor
    · intro h
      have hsum := congrArg String.length h
      rw [String.length_append] at hsum
      have hempty : delta e = "" := by
        apply String.length_eq_zero_iff.mp
        have := hlen es
        omega
      rw [hempty, String.append_empty] at h
      exact ⟨ih.mp h, hempty⟩
    · rintro ⟨hes, hempty⟩
      rw [hempty, String.append_empty, ih.mpr hes]
  | false =>
  simp only [filter_cons, he, Bool.not_false, if_true, filter_nil,
    Bool.false_eq_true, false_imp_iff, and_true]
  rw [textOf_concat]
  change textOf es ++ delta e = textOf (own es) ++ delta e ↔ _
  rw [String.append_left_inj]
  exact ih

/-- Of the envelopes of the turn itself the same one is the first that says that it is over. -/
theorem FirstOwn.report_own
    {before : List GatewayEnvelope} (h : FirstOwn es before e) :
  report (own es) = outcomeOf e (textOf (own before)) (lastErrorOf (own before))
  := by
  obtain ⟨after, rfl⟩ := h.split
  have hsplit : own (before ++ e :: after) = own before ++ e :: own after := by
    rw [own, filter_append, filter_cons, h.top]
    rfl
  rw [hsplit, report_of_first _ h.terminal]
  intro f hf
  obtain ⟨hf, howned⟩ := mem_filter.mp hf
  by_contra hterm
  rw [Bool.not_eq_false] at hterm
  rw [h.first f hf hterm] at howned
  cases howned

/-- At every time the completion reports its own turn just if subagents do not disturb it. -/
theorem reports_iff (es : List GatewayEnvelope) :
  Reports es ↔ Undisturbed es
  := by
  constructor
  · intro h
    have hprefix : ∀ before after, es = before ++ after → report before = report (own before) := by
      rintro before after rfl
      have hread := h before.length
      rw [take_left, observeTurn_outcome] at hread
      exact hread
    have hends : ∀ before e after, es = before ++ e :: after → e.terminal →
        e.forwarded → ∃ f ∈ before, f.terminal ∧ f.forwarded = false := by
      intro before e after hes he hfwd
      by_contra hnone
      push Not at hnone
      -- The run of the subagent settles the outcome, though the turn itself has not ended.
      have hread := hprefix (before ++ [e]) after (by rw [hes, append_assoc]; rfl)
      have hown : report (own (before ++ [e])) = none := by
        apply report_of_forall
        intro f hf
        obtain ⟨hf, howned⟩ := mem_filter.mp hf
        rw [Bool.not_eq_true'] at howned
        by_contra hterm
        rw [Bool.not_eq_false] at hterm
        rcases mem_append.mp hf with hf | hf
        · exact hnone f hf hterm howned
        · rw [mem_singleton.mp hf, hfwd] at howned
          cases howned
      rw [← observeTurn_outcome, outcome_concat, hown] at hread
      have hset := terminal_iff (e := e) (textOf before) (lastErrorOf before)
      rw [(Option.or_eq_none_iff.mp hread).2, he] at hset
      cases hset
    have hout : ∀ before e, FirstOwn es before e →
        outcomeOf e (textOf before) (lastErrorOf before) =
          outcomeOf e (textOf (own before)) (lastErrorOf (own before)) := by
      intro before e hfirst
      have hread := hprefix es [] (append_nil es).symm
      rw [hfirst.report_own] at hread
      obtain ⟨after, hes⟩ := hfirst.split
      rw [← hread, hes, report_of_first (hfirst.before_terminal hends) hfirst.terminal]
    constructor
    · exact hends
    · intro before e hfirst
      exact textOf_own_iff.mp ((outcomeOf_eq_iff hfirst.terminal).mp (hout before e hfirst)).1
    · intro before e hfirst
      exact ((outcomeOf_eq_iff hfirst.terminal).mp (hout before e hfirst)).2
  intro h n
  rw [observeTurn_outcome]
  have htake : es = es.take n ++ es.drop n := (take_append_drop n es).symm
  rcases exists_first (fun e => e.terminal && !e.forwarded) (es.take n) with
    hall | ⟨before, e, after, hsplit, he, hpre⟩
  · -- The turn itself has not ended, so that no run of a subagent has.
    have hnone : ∀ e ∈ es.take n, e.terminal = false := by
      intro e he
      by_contra hterm
      rw [Bool.not_eq_false] at hterm
      obtain ⟨before, after, hsplit⟩ := append_of_mem he
      have hfwd : e.forwarded := by
        have hfalse := hall e he
        rw [hterm, Bool.true_and, Bool.not_eq_false'] at hfalse
        exact hfalse
      rw [hsplit, append_assoc, cons_append] at htake
      obtain ⟨f, hf, hfterminal, hfown⟩ := h.ends before e _ htake hterm hfwd
      have hfalse := hall f (hsplit ▸ mem_append_left _ hf)
      rw [hfterminal, hfown] at hfalse
      cases hfalse
    rw [report_of_forall hnone, report_of_forall]
    intro e he
    exact hnone e (mem_filter.mp he).1
  rw [Bool.and_eq_true_iff, Bool.not_eq_true'] at he
  have hfirst_of : ∀ {ds rest}, ds = before ++ e :: rest → FirstOwn ds before e := by
    rintro ds rest rfl
    refine ⟨⟨rest, rfl⟩, he.1, he.2, ?_⟩
    intro f hf hterm
    have hfalse := hpre f hf
    rw [hterm, Bool.true_and, Bool.not_eq_false'] at hfalse
    exact hfalse
  have hfirst : FirstOwn (es.take n) before e := hfirst_of hsplit
  rw [hsplit, append_assoc, cons_append] at htake
  have hwhole : FirstOwn es before e := hfirst_of htake
  rw [hfirst.report_own, hsplit, report_of_first (hwhole.before_terminal h.ends) hwhole.terminal,
    outcomeOf_eq_iff hwhole.terminal]
  exact ⟨textOf_own_iff.mpr (h.texts before e hwhole), h.details before e hwhole⟩

/-- A run of a subagent that completes. -/
def childCompleted : GatewayEnvelope :=
  ⟨"core", .obj [("type", .str "turn.completed"), ("parentTurnId", .str "t1"),
    ("payload", .obj [])]⟩

/-- A subagent that completes before the turn does ends the completion. -/
theorem not_reports :
  ¬ ∀ es, Reports es
  := by
  intro h
  have hset := congrArg Option.isSome (h [childCompleted] 1)
  exact absurd hset (by decide)

end Gateway
