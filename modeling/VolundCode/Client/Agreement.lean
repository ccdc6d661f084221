import VolundCode.Client.Chat
import VolundCode.Client.SessionStream
import VolundCode.Lib.Run

/-!
# The clients agree

The web client and the mobile client show the same turn and the same tool calls with the same
statuses, for every list of envelopes in which no call, other than that of a subagent, is requested
again when it has ended, unless something else has told of its status since
(`agree_iff`). Of such a call the web client shows that it is running again, and the mobile client
that it has ended (`not_agree`).
-/

namespace Client

open Run List

/-- The clients show the same turn, and the same calls with the same statuses. -/
structure Agree (web : SessionStream.ChatState) (mobile : Chat.ChatState) : Prop where
  turn : web.turn = mobile.turn
  interrupted : web.interrupted = mobile.interrupted
  ids : ∀ id, id ∈ web.tools.map SessionStream.ToolCard.toolUseId ↔
    id ∈ mobile.tools.map Chat.ToolCard.toolUseId
  status : ∀ card ∈ web.tools, ∀ card' ∈ mobile.tools,
    card.toolUseId = card'.toolUseId → card.status = card'.status

/-! ### What is told of a call -/

/-- The call has been requested or has started. -/
def Known (id : String) : List Envelope → Prop :=
  Since (fun _ e => e.signal id = .started ∨ ∃ tool, e.signal id = .requested tool) fun _ => True

/-- The call has been completed or its turn has ended, and it has not started since. -/
def Ended (id : String) : List Envelope → Prop :=
  Since
    (fun past e =>
      Known id past ∧ (e.signal id = .ended ∨ ∃ isError, e.signal id = .completed isError))
    fun e => e.signal id ≠ .started

/-- The call has been completed without an error, and has not started or been completed since. -/
def Succeeded (id : String) : List Envelope → Prop :=
  Since (fun past e => Known id past ∧ e.signal id = .completed false)
    fun e => e.signal id ≠ .started ∧ ∀ isError, e.signal id ≠ .completed isError

/-- The call is not that of a subagent, and is requested. -/
def RequestsTool (id : String) (e : Envelope) : Prop :=
  ∃ tool, tool ≠ "Task" ∧ e.signal id = .requested tool

/-- The call has been requested again after it had succeeded, and has not started or been completed
since. -/
def RequestedAfterSuccess (id : String) : List Envelope → Prop :=
  Since (fun past e => Succeeded id past ∧ RequestsTool id e)
    fun e => e.signal id ≠ .started ∧ ∀ isError, e.signal id ≠ .completed isError

/-- The call has been requested again after it had ended, and has not started or ended since. -/
def RequestedAfterEnd (id : String) : List Envelope → Prop :=
  Since (fun past e => Ended id past ∧ RequestsTool id e)
    fun e => e.signal id ≠ .started ∧ (∀ isError, e.signal id ≠ .completed isError) ∧
      e.signal id ≠ .ended

/-! ### The two statuses of a call -/

/-- The status that the web client has for a call. -/
def webStatus (id : String) (es : List Envelope) : Option Status :=
  (es.map fun e => e.signal id).foldl SessionStream.step none

/-- The status that the mobile client has for a call. -/
def mobileStatus (id : String) (es : List Envelope) : Option Status :=
  (es.map fun e => e.signal id).foldl Chat.step none

theorem webStatus_concat (id : String) (es : List Envelope) (e : Envelope) :
  webStatus id (es ++ [e]) = SessionStream.step (webStatus id es) (e.signal id)
  := by
  rw [webStatus, map_append, map_singleton, foldl_concat]
  rfl

theorem mobileStatus_concat (id : String) (es : List Envelope) (e : Envelope) :
  mobileStatus id (es ++ [e]) = Chat.step (mobileStatus id es) (e.signal id)
  := by
  rw [mobileStatus, map_append, map_singleton, foldl_concat]
  rfl

/-- What the statuses of a call say of what has been told of it. -/
structure Told (id : String) (es : List Envelope) (web mobile : Option Status) : Prop where
  known : Known id es ↔ mobile ≠ none
  ended : Ended id es ↔ mobile = some .done ∨ mobile = some .error
  succeeded : Succeeded id es ↔ mobile = some .done
  afterSuccess : RequestedAfterSuccess id es ↔ mobile = some .done ∧ web ≠ some .done
  afterEnd : RequestedAfterEnd id es ↔
    web = some .running ∧ (mobile = some .done ∨ mobile = some .error)
  apart : web = mobile ∨ mobile = some .done ∧ (web = some .running ∨ web = some .error) ∨
    web = some .running ∧ mobile = some .error

/-- The statuses before any envelope. -/
theorem told_nil (id : String) :
  Told id [] none none
  := by
  constructor
  · simp [Known, not_since_nil]
  · simp [Ended, not_since_nil]
  · simp [Succeeded, not_since_nil]
  · simp [RequestedAfterSuccess, not_since_nil]
  · simp [RequestedAfterEnd, not_since_nil]
  · simp

/-- The statuses after one more envelope. -/
theorem Told.concat {id : String} {es : List Envelope} {web mobile : Option Status}
    (h : Told id es web mobile) (e : Envelope) :
  Told id (es ++ [e]) (SessionStream.step web (e.signal id)) (Chat.step mobile (e.signal id))
  := by
  have hknown : Known id (es ++ [e]) ↔
      (e.signal id = .started ∨ ∃ tool, e.signal id = .requested tool) ∨ Known id es ∧ True :=
    since_concat
  have hended : Ended id (es ++ [e]) ↔
      Known id es ∧ (e.signal id = .ended ∨ ∃ isError, e.signal id = .completed isError) ∨
        Ended id es ∧ e.signal id ≠ .started :=
    since_concat
  have hsucc : Succeeded id (es ++ [e]) ↔ Known id es ∧ e.signal id = .completed false ∨
        Succeeded id es ∧ e.signal id ≠ .started ∧ ∀ isError, e.signal id ≠ .completed isError :=
    since_concat
  have hsuccess : RequestedAfterSuccess id (es ++ [e]) ↔
      Succeeded id es ∧ RequestsTool id e ∨ RequestedAfterSuccess id es ∧
        e.signal id ≠ .started ∧ ∀ isError, e.signal id ≠ .completed isError :=
    since_concat
  have hend : RequestedAfterEnd id (es ++ [e]) ↔
      Ended id es ∧ RequestsTool id e ∨ RequestedAfterEnd id es ∧ e.signal id ≠ .started ∧
        (∀ isError, e.signal id ≠ .completed isError) ∧ e.signal id ≠ .ended :=
    since_concat
  simp only [RequestsTool] at hsuccess hend
  rw [h.known] at hknown
  rw [h.known, h.ended] at hended
  rw [h.known, h.succeeded] at hsucc
  rw [h.succeeded, h.afterSuccess] at hsuccess
  rw [h.ended, h.afterEnd] at hend
  have hpairs : web = mobile ∧ (mobile = none ∨ mobile = some .running ∨ mobile = some .done ∨
      mobile = some .error) ∨ mobile = some .done ∧ (web = some .running ∨ web = some .error) ∨
      web = some .running ∧ mobile = some .error := by
    rcases h.apart with hsame | hapart
    · refine .inl ⟨hsame, ?_⟩
      rcases mobile with _ | _ | _ | _
      all_goals simp
    · exact .inr hapart
  -- what each event makes of each pair of statuses that there is
  rcases hpairs with ⟨rfl, rfl | rfl | rfl | rfl⟩ | ⟨rfl, rfl | rfl⟩ | ⟨rfl, rfl⟩
  all_goals
    refine ⟨hknown.trans ?_, hended.trans ?_, hsucc.trans ?_, hsuccess.trans ?_, hend.trans ?_, ?_⟩
    all_goals
      cases e.signal id with
      | requested tool =>
        by_cases htool : tool = "Task"
        all_goals simp [SessionStream.step, Chat.step, htool]
      | completed isError => cases isError with | _ => simp [SessionStream.step, Chat.step]
      | _ => simp [SessionStream.step, Chat.step, Status.settle]

/-- The statuses after a list of envelopes. -/
theorem told_run (id : String) (es : List Envelope) :
  Told id es (webStatus id es) (mobileStatus id es)
  := by
  induction es using List.reverseRecOn with
  | nil => exact told_nil id
  | append_singleton es e ih =>
    rw [webStatus_concat, mobileStatus_concat]
    exact ih.concat e

/-- The clients have the same status for a call, unless it has been requested again. -/
theorem webStatus_eq_iff (id : String) (es : List Envelope) :
  webStatus id es = mobileStatus id es ↔ ¬ RequestedAfterSuccess id es ∧ ¬ RequestedAfterEnd id es
  := by
  have h := told_run id es
  rw [h.afterSuccess, h.afterEnd]
  rcases h.apart with hsame | ⟨hmobile, hweb | hweb⟩ | ⟨hweb, hmobile⟩
  · rw [hsame]
    rcases mobileStatus id es with _ | _ | _ | _
    all_goals simp
  all_goals simp [hmobile, hweb]

/-! ### The clients -/

/-- The clients show the same calls with the same statuses when they have the same status for every
call. -/
theorem agree_of_status {web : SessionStream.ChatState} {mobile : Chat.ChatState}
    (hweb : web.Distinct) (hmobile : mobile.Distinct) :
  ((∀ id, id ∈ web.tools.map SessionStream.ToolCard.toolUseId ↔
      id ∈ mobile.tools.map Chat.ToolCard.toolUseId) ∧
    ∀ card ∈ web.tools, ∀ card' ∈ mobile.tools,
      card.toolUseId = card'.toolUseId → card.status = card'.status) ↔
    ∀ id, web.statusOf id = mobile.statusOf id
  := by
  have hwebStatus : ∀ card ∈ web.tools, web.statusOf card.toolUseId = some card.status :=
    fun card hcard => statusOf_of_mem SessionStream.ToolCard.toolUseId _ hweb hcard
  have hmobileStatus : ∀ card ∈ mobile.tools, mobile.statusOf card.toolUseId = some card.status :=
    fun card hcard => statusOf_of_mem Chat.ToolCard.toolUseId _ hmobile hcard
  have hwebNone : ∀ id, web.statusOf id = none ↔
      id ∉ web.tools.map SessionStream.ToolCard.toolUseId :=
    fun id => statusOf_eq_none _ _
  have hmobileNone : ∀ id, mobile.statusOf id = none ↔
      id ∉ mobile.tools.map Chat.ToolCard.toolUseId :=
    fun id => statusOf_eq_none _ _
  constructor
  · rintro ⟨hids, hstatus⟩ id
    by_cases hid : id ∈ web.tools.map SessionStream.ToolCard.toolUseId
    · obtain ⟨card, hcard, rfl⟩ := mem_map.mp hid
      obtain ⟨card', hcard', hsame⟩ := mem_map.mp ((hids _).mp hid)
      rw [hwebStatus card hcard, ← hsame, hmobileStatus card' hcard',
        hstatus card hcard card' hcard' hsame.symm]
    · rw [(hwebNone id).mpr hid, (hmobileNone id).mpr fun hmem => hid ((hids id).mpr hmem)]
  intro hsame
  constructor
  · intro id
    rw [← not_iff_not, ← hwebNone, ← hmobileNone, hsame]
  intro card hcard card' hcard' hid
  have hstatus := hsame card.toolUseId
  rw [hwebStatus card hcard, hid, hmobileStatus card' hcard'] at hstatus
  exact Option.some.inj hstatus

/-- The clients agree after a list of envelopes in which none attaches them to a session, if and
only if no call has been requested again after it had ended without anything told of its status
since. -/
theorem agree_iff (texts texts' : Texts) {es : List Envelope} (hes : ∀ e ∈ es, ¬ e.attaches) :
  Agree (SessionStream.run texts es) (Chat.run texts' es) ↔
    ∀ id, ¬ RequestedAfterSuccess id es ∧ ¬ RequestedAfterEnd id es
  := by
  obtain ⟨hturn, hint⟩ := @SessionStream.turn_run texts es hes
  obtain ⟨hturn', hint'⟩ := Chat.turn_run texts' es
  have hstatus := agree_of_status (SessionStream.distinct_run texts es)
    (Chat.distinct_run texts' es)
  have hsame : (∀ id, (SessionStream.run texts es).statusOf id = (Chat.run texts' es).statusOf id) ↔
      ∀ id, ¬ RequestedAfterSuccess id es ∧ ¬ RequestedAfterEnd id es := by
    apply forall_congr'
    intro id
    rw [SessionStream.statusOf_run hes, Chat.statusOf_run]
    exact webStatus_eq_iff id es
  rw [← hsame, ← hstatus]
  constructor
  · intro h
    exact ⟨h.ids, h.status⟩
  rintro ⟨hids, hcards⟩
  constructor
  · rw [hturn, hturn']
  · rw [hint, hint']
  · exact hids
  · exact hcards

/-- A call is requested, starts and is completed. -/
theorem agree_iff_call :
  Agree
      (SessionStream.run noTexts
        ([.toolRequested "a" "Bash" .null, .toolStarted "a" "Bash",
          .toolCompleted "a" false none none].map .ofCore))
      (Chat.run noTexts
        ([.toolRequested "a" "Bash" .null, .toolStarted "a" "Bash",
          .toolCompleted "a" false none none].map .ofCore)) ↔
    ∀ id, ¬ RequestedAfterSuccess id
          ([.toolRequested "a" "Bash" .null, .toolStarted "a" "Bash",
            .toolCompleted "a" false none none].map .ofCore) ∧
        ¬ RequestedAfterEnd id
          ([.toolRequested "a" "Bash" .null, .toolStarted "a" "Bash",
            .toolCompleted "a" false none none].map .ofCore)
  := by
  apply agree_iff
  intro e he
  obtain ⟨event, -, rfl⟩ := mem_map.mp he
  exact not_attaches_ofCore event

/-- A call that has been completed is requested again. -/
theorem not_agree :
  ¬ Agree
      (SessionStream.run noTexts
        ([.toolRequested "a" "Bash" .null, .toolCompleted "a" false none none,
          .toolRequested "a" "Bash" .null].map .ofCore))
      (Chat.run noTexts
        ([.toolRequested "a" "Bash" .null, .toolCompleted "a" false none none,
          .toolRequested "a" "Bash" .null].map .ofCore))
  := by
  intro h
  have hstatus := h.status ⟨"a", "Bash", .running, 1, none, none, none, none, none, none⟩ (by decide)
    ⟨"a", "Bash", .done, 1, none, none, none, none⟩ (by decide) rfl
  exact Status.noConfusion hstatus

/-- What is silent about a call can be left out. -/
theorem foldl_told {step : Option Status → Signal → Option Status}
    (h : ∀ status, step status .silent = status) (l : List Signal) (status : Option Status) :
  (l.filter (· ≠ .silent)).foldl step status = l.foldl step status
  := by
  rw [foldl_filter]
  congr! with status signal
  split_ifs with hsignal
  · rfl
  rw [decide_eq_true_eq, not_not] at hsignal
  rw [hsignal, h]

/-- What the clients show of a call depends on what they are told of it, in this order, and on
nothing else. -/
theorem shown_of_told (texts texts' : Texts) {es es' : List Envelope} {id : String}
    (hes : ∀ e ∈ es ++ es', ¬ e.attaches)
    (h : (es.map (·.signal id)).filter (· ≠ .silent) =
      (es'.map (·.signal id)).filter (· ≠ .silent)) :
  (SessionStream.run texts es).statusOf id = (SessionStream.run texts' es').statusOf id ∧
    (Chat.run texts es).statusOf id = (Chat.run texts' es').statusOf id
  := by
  obtain ⟨hweb, hweb'⟩ := forall_mem_append.mp hes
  rw [SessionStream.statusOf_run hweb, SessionStream.statusOf_run hweb', Chat.statusOf_run,
    Chat.statusOf_run]
  constructor
  all_goals
    rw [← foldl_told (by rintro (_ | _) <;> rfl), h, foldl_told (by rintro (_ | _) <;> rfl)]

/-- A call is requested and completed, and there are other events meanwhile. -/
def meanwhile (others : List Event) : List Envelope :=
  map .ofCore (.toolRequested "a" "Bash" .null :: others ++ [.toolCompleted "a" false none none])

theorem shown_of_told_meanwhile :
  (SessionStream.run noTexts (meanwhile [.turnStarted])).statusOf "a" =
      (SessionStream.run noTexts (meanwhile [])).statusOf "a" ∧
    (Chat.run noTexts (meanwhile [.turnStarted])).statusOf "a" =
      (Chat.run noTexts (meanwhile [])).statusOf "a"
  := by
  apply shown_of_told
  · intro e he
    rw [meanwhile, meanwhile, ← map_append] at he
    obtain ⟨event, -, rfl⟩ := mem_map.mp he
    apply not_attaches_ofCore
  · rfl

end Client
