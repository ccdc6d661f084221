import VolundCode.Client.SessionStream

/-!
# Envelopes that are sent again

A stream that is opened again may send envelopes that have arrived already. The web client does not
look at their cursors. At every point it shows what it would show without them, if and only if each
of them changes nothing that is shown when it arrives (`redelivers_iff`), which `Absorbs` says for
every event. A fragment of a message never does so (`not_redelivers`).
-/

namespace Client

open List

namespace SessionStream

attribute [ext] ChatState ChatMessage ToolCard SubagentActivity

/-! ### What changes nothing -/

/-- What is set anew is what there is, if anything is set. -/
def Keeps {α : Type} (new old : Option α) : Prop :=
  new = none ∨ new = old

/-- No call is running. -/
def Settled (state : ChatState) : Prop :=
  ∀ tool ∈ state.tools, tool.status ≠ .running

/-- There is a card for a call. -/
def Knows (state : ChatState) (id : String) : Prop :=
  ∃ card ∈ state.tools, card.toolUseId = id

/-- There is a message with an id. -/
def Shows (state : ChatState) (id : String) : Prop :=
  ∃ message ∈ state.messages, message.id = id

/-- An event that a subagent has forwarded changes nothing. -/
def AbsorbsBubbled (state : ChatState) (e : Envelope) : Prop :=
  ∀ parentTurnId, e.parentTurnId = some parentTurnId → parentTurnId ≠ "" →
    match e.event with
    | .toolStarted .. => False
    | .toolCompleted .. =>
      ∀ activity, state.subagents parentTurnId = some activity → activity.running = 0
    | _ => True

/-- The message is shown as it is, or there is nothing of it to be shown. -/
def AbsorbsMessage (state : ChatState) (id : String) (role : Role) (content : List ContentPart) :
    Prop :=
  (Shows state id → (role = .user → ∀ message ∈ state.messages, message.isLocal = false) ∧
      ∀ message ∈ state.messages, message.id = id →
        message.text = textOfContent content ∧ message.streaming = false ∧
          (imagesOfContent content = [] ∨ message.images = imagesOfContent content)) ∧
    (¬ Shows state id → textOfContent content = "" ∧ imagesOfContent content = [])

/-- The fragment is empty, and its message is being streamed. -/
def AbsorbsDelta (state : ChatState) (id : String) (kind : DeltaKind) (fragment : String) : Prop :=
  kind = .text → fragment = "" ∧ Shows state id ∧
    ∀ message ∈ state.messages, message.id = id → message.streaming

/-- The call is known with the texts of the request, and is running unless it is that of a
subagent. -/
def AbsorbsRequest (texts : Texts) (state : ChatState) (id tool : String) (input : Json) : Prop :=
  Knows state id ∧ ∀ card ∈ state.tools, card.toolUseId = id →
    (if tool = "Task" then Keeps (texts.taskSummaryOf input) card.task
      else card.status = .running) ∧
      Keeps (texts.toolTargetLabel tool input) card.target ∧
      Keeps (texts.toolBodyLabel tool input) card.body

/-- What an envelope does has been done: a state in which it changes nothing. -/
def Absorbs (texts : Texts) (state : ChatState) (e : Envelope) : Prop :=
  if e.forwarded then AbsorbsBubbled state e
  else
    match e.event with
    | .messageAppended id role content => AbsorbsMessage state id role content
    | .streamDelta id kind fragment => AbsorbsDelta state id kind fragment
    | .streamCompleted id =>
      ∀ message ∈ state.messages, message.id = id → message.streaming = false
    | .turnStarted =>
      state.turn = .running ∧ state.usage = none ∧ state.streamedChars = 0 ∧
        state.interrupted = false
    | .turnCompleted usage => state.turn = .idle ∧ state.usage = some usage ∧ Settled state
    | .turnAborted .userInterrupt =>
      state.turn = .idle ∧ state.interrupted ∧ Settled state
    | .turnAborted _ => state.turn = .idle ∧ state.notice ≠ none ∧ Settled state
    | .toolRequested id tool input => AbsorbsRequest texts state id tool input
    | .toolStarted id _ =>
      Knows state id ∧ ∀ card ∈ state.tools, card.toolUseId = id →
        card.status = .running ∧ Keeps e.turnId card.turnId
    | .toolCompleted id isError linesAdded linesRemoved =>
      ∀ card ∈ state.tools, card.toolUseId = id →
        card.status = (if isError then .error else .done) ∧
          Keeps linesAdded card.linesAdded ∧ Keeps linesRemoved card.linesRemoved
    | .errorRaised code message reason =>
      state.notice = some (code ++ ": " ++ (message.or reason).getD "")
    | .turnFailed message =>
      e.kind = .view → state.turn = .idle ∧ state.notice = some (message.getD "turn failed") ∧
        Settled state
    | .permissionRequest request _ _ => e.kind = .view → Keeps request state.permission
    | .permissionResolved => e.kind = .view → state.permission = none
    | .askRequest request _ _ => e.kind = .view → Keeps request state.ask
    | .askResolved => e.kind = .view → state.ask = none
    | .permissionMode mode => e.kind = .view → Keeps mode state.permissionMode
    | .sessionAttached =>
      e.kind = .view → state =
        { initialChatState with
          permissionMode := state.permissionMode
          notice := some texts.attachedNotice }
    | _ => True

theorem or_eq_self_iff {α : Type} {new old : Option α} :
  new.or old = old ↔ Keeps new old
  := by
  cases new with
  | none | some a => simp [Keeps]

/-- A list is not changed when none of its elements is. -/
theorem map_eq_self_iff {α : Type} {l : List α} {f : α → α} :
  l.map f = l ↔ ∀ a ∈ l, f a = a
  := by
  induction l with
  | nil => simp
  | cons a l ih => simp [ih]

variable {id : String} {state : ChatState}

/-- Only the cards of a call are looked at. -/
theorem update_eq_self_iff {f : ToolCard → ToolCard} :
  state.update id f = state ↔ ∀ card ∈ state.tools, card.toolUseId = id → f card = card
  := by
  have htools : state.update id f = state ↔
      (state.tools.map fun card => if card.toolUseId = id then f card else card) = state.tools := by
    simp [ChatState.ext_iff, ChatState.update]
  rw [htools, map_eq_self_iff]
  apply forall₂_congr
  intro card _
  split_ifs with hid
  · simp [hid]
  · simp [hid]

/-- A state to which a card is added is another. -/
theorem add_ne_self (state : ChatState) (card : ToolCard) :
  state.add card ≠ state
  := by
  intro h
  have hseq := congrArg ChatState.nextSeq h
  simp [ChatState.add] at hseq

/-- A card is changed or added. -/
theorem upsert_eq_self_iff {f : ToolCard → ToolCard} {card : ToolCard} :
  (if state.tools.any fun card => card.toolUseId = id then state.update id f
    else state.add card) = state ↔
    Knows state id ∧ ∀ card ∈ state.tools, card.toolUseId = id → f card = card
  := by
  have hknows : (state.tools.any fun card => card.toolUseId = id) ↔ Knows state id := by
    simp [Knows]
  by_cases hid : Knows state id
  · rw [if_pos (hknows.mpr hid), update_eq_self_iff]
    simp [hid]
  · rw [if_neg fun hany => hid (hknows.mp hany)]
    simp [hid, add_ne_self]

/-- The end of a turn changes no call when none is running. -/
theorem settle_eq_self_iff :
  settleRunningTools state = state.tools ↔ Settled state
  := by
  rw [settleRunningTools_eq, map_eq_self_iff, Settled]
  apply forall₂_congr
  intro tool _
  by_cases hruns : tool.status = .running
  · simp [ToolCard.ext_iff, hruns]
  · simp [hruns]

/-- What is left of the messages when one of the user is complete, without echoes. -/
theorem base_eq_of_forall {role : Role}
    (h : role = .user → ∀ message ∈ state.messages, message.isLocal = false) :
  (if role = .user then state.messages.filter fun message => !message.isLocal
    else state.messages) = state.messages
  := by
  by_cases hrole : role = .user
  · rw [if_pos hrole, filter_eq_self]
    intro message hmsg
    rw [h hrole message hmsg, Bool.not_false]
  · rw [if_neg hrole]

/-- The images that echoes leave, without echoes. -/
theorem echoImages_eq_of_forall {role : Role}
    (h : role = .user → ∀ message ∈ state.messages, message.isLocal = false) :
  (if role = .user then
      ((state.messages.find? fun message => message.isLocal && message.images ≠ []).map
        ChatMessage.images).getD []
    else []) = []
  := by
  by_cases hrole : role = .user
  · have hfind : (state.messages.find? fun message => message.isLocal && message.images ≠ []) =
        none := by
      rw [List.find?_eq_none]
      intro message hmsg
      simp [h hrole message hmsg]
    rw [if_pos hrole, hfind]
    rfl
  · rw [if_neg hrole]

/-- A complete message. -/
theorem messageAppended_eq_self_iff {role : Role} {content : List ContentPart} :
  messageAppended state id role content = state ↔ AbsorbsMessage state id role content
  := by
  have hshows : (state.messages.any fun message => message.id = id) ↔ Shows state id := by
    simp [Shows]
  unfold messageAppended AbsorbsMessage
  by_cases hid : Shows state id
  · have hknown := hshows.mpr hid
    simp only [hknown, hid, Bool.not_true, Bool.false_and, Bool.false_eq_true, if_false, if_true,
      not_true_eq_false, false_imp_iff, and_true, true_imp_iff, ChatState.ext_iff]
    by_cases hlocal : role = .user → ∀ message ∈ state.messages, message.isLocal = false
    · rw [base_eq_of_forall hlocal, echoImages_eq_of_forall hlocal, map_eq_self_iff]
      rw [and_iff_right hlocal]
      apply forall₂_congr
      intro message _
      by_cases hmsg : message.id = id
      · by_cases himages : imagesOfContent content = []
        · simp [hmsg, himages, ChatMessage.ext_iff, @eq_comm _ (textOfContent content)]
        · simp [hmsg, himages, ChatMessage.ext_iff, @eq_comm _ (textOfContent content),
            @eq_comm _ (imagesOfContent content)]
      · simp [hmsg]
    simp only [hlocal, false_and, iff_false]
    push Not at hlocal
    obtain ⟨hrole, message, hmsg, hecho⟩ := hlocal
    intro hsame
    have hlen := congrArg List.length hsame
    rw [length_map, if_pos hrole] at hlen
    have hlt : (state.messages.filter fun message => !message.isLocal).length <
        state.messages.length := by
      rw [length_filter_lt_length_iff_exists]
      exact ⟨message, hmsg, by simpa using hecho⟩
    omega
  have hknown := mt hshows.mp hid
  rw [Bool.not_eq_true] at hknown
  simp only [hknown, hid, Bool.not_false, Bool.true_and, Bool.and_eq_true, decide_eq_true_eq,
    Bool.false_eq_true, if_false, false_imp_iff, true_and, not_false_eq_true, true_imp_iff]
  by_cases hempty : textOfContent content = "" ∧ imagesOfContent content = []
  · rw [if_pos hempty]
    simp [hempty]
  · rw [if_neg hempty]
    simp [ChatState.ext_iff, hempty]

/-- Only the empty string has no units. -/
theorem length_units_eq_zero {s : String} :
  (Ecma.units s).length = 0 ↔ s = ""
  := by
  rw [length_eq_zero_iff, Ecma.units, flatMap_eq_nil_iff]
  constructor
  · intro h
    have hnil : s.toList = [] := by
      rw [eq_nil_iff_forall_not_mem]
      intro c hc
      have hunits := h c hc
      split_ifs at hunits
    exact String.toList_eq_nil_iff.mp hnil
  · rintro rfl
    simp

/-- A fragment of a message. -/
theorem streamDelta_eq_self_iff {kind : DeltaKind} {fragment : String} :
  streamDelta state id kind fragment = state ↔ AbsorbsDelta state id kind fragment
  := by
  have hshows : (state.messages.any fun message => message.id = id) ↔ Shows state id := by
    simp [Shows]
  unfold streamDelta AbsorbsDelta
  by_cases hkind : kind = .text
  · rw [if_neg (not_not_intro hkind)]
    by_cases hid : Shows state id
    · have hknown := hshows.mpr hid
      obtain ⟨shown, hshown, hsame⟩ := hid
      simp only [hknown, if_true, ChatState.ext_iff, and_true, hkind, true_imp_iff, true_and,
        map_eq_self_iff, Nat.add_eq_left, length_units_eq_zero]
      constructor
      · rintro ⟨hmsgs, hempty⟩
        refine ⟨hempty, ⟨shown, hshown, hsame⟩, ?_⟩
        intro message hmsg hid
        have heq := hmsgs message hmsg
        rw [if_pos hid] at heq
        exact (congrArg ChatMessage.streaming heq).symm
      rintro ⟨hempty, -, hstr⟩
      refine ⟨?_, hempty⟩
      intro message hmsg
      by_cases hid : message.id = id
      · simp [hid, hempty, ChatMessage.ext_iff, hstr message hmsg hid]
      · simp [hid]
    · have hknown := mt hshows.mp hid
      rw [Bool.not_eq_true] at hknown
      simp [ChatState.ext_iff, hknown, hid, hkind]
  · simp [hkind]

/-- An event that a subagent has forwarded. -/
theorem reduceBubbledEvent_eq_self_iff {e : Envelope} :
  reduceBubbledEvent state e = state ↔ AbsorbsBubbled state e
  := by
  unfold reduceBubbledEvent AbsorbsBubbled
  cases hparent : e.parentTurnId with
  | none => simp
  | some parentTurnId =>
  by_cases hempty : parentTurnId = ""
  · simp [hempty]
  simp only [if_neg hempty]
  have hne : ∀ activity, state.subagents parentTurnId ≠ some activity →
      { state with
        subagents := Function.update state.subagents parentTurnId (some activity) } ≠
        state := by
    intro activity hact h
    apply hact
    have hsubagents := congrFun (congrArg ChatState.subagents h) parentTurnId
    rw [← hsubagents]
    exact Function.update_self ..
  have hparentOnly : ∀ p : String → Prop,
      (∀ parent, some parentTurnId = some parent → parent ≠ "" → p parent) ↔ p parentTurnId := by
    intro p
    constructor
    · intro h
      exact h parentTurnId rfl hempty
    · rintro h parent ⟨⟩ -
      exact h
  cases e.event with
  | toolStarted id tool =>
    apply Iff.trans _ (hparentOnly _).symm
    rw [iff_false]
    apply hne
    intro hact
    have hcalls := congrArg (fun activity => (activity.getD ⟨0, 0, none⟩).toolCalls) hact
    simp at hcalls
  | toolCompleted id isError linesAdded linesRemoved =>
    apply Iff.trans _ (hparentOnly _).symm
    dsimp only
    cases hcur : state.subagents parentTurnId with
    | none => simp
    | some current =>
    simp only [Option.some.injEq, forall_eq']
    constructor
    · intro hsame
      by_contra hruns
      apply hne { current with running := current.running - 1 } _ hsame
      intro hact
      rw [hcur] at hact
      have hfewer := congrArg SubagentActivity.running (Option.some.inj hact)
      dsimp only at hfewer
      omega
    intro hruns
    have hact : { current with running := current.running - 1 } = current := by
      ext
      · rfl
      · rw [hruns]
      · rfl
    rw [hact, ← hcur, Function.update_eq_self]
  | _ =>
    apply Iff.trans _ (hparentOnly _).symm
    simp

/-- The turn has ended. -/
theorem ended_eq_self_iff {usage : Option Json} {notice : Option String} {interrupted : Bool} :
  { state with
    turn := .idle
    usage := usage
    tools := settleRunningTools state
    notice := notice
    interrupted := interrupted } = state ↔
    state.turn = .idle ∧ usage = state.usage ∧ notice = state.notice ∧
      interrupted = state.interrupted ∧ Settled state
  := by
  simp only [ChatState.ext_iff, settle_eq_self_iff, true_and, and_true]
  constructor
  · rintro ⟨hset, hturn, husage, hnotice, hint⟩
    exact ⟨hturn.symm, husage, hnotice, hint, hset⟩
  · rintro ⟨hturn, husage, hnotice, hint, hset⟩
    exact ⟨hset, hturn.symm, husage, hnotice, hint⟩

/-- A notice that is there already is kept. -/
theorem notice_eq_self_iff {notice : Option String} {text : String} :
  some (notice.getD text) = notice ↔ notice ≠ none
  := by
  cases notice with
  | none | some text' => simp

/-- The state absorbs an envelope if and only if it is not changed by it. -/
theorem absorbs_iff {texts : Texts} {e : Envelope} :
  Absorbs texts state e ↔ reduceEnvelope texts state e = state
  := by
  have hview : ∀ (p : Prop) (state' : ChatState), (p ↔ state' = state) →
      ((e.kind = .view → p) ↔ (if e.kind = .view then state' else state) = state) := by
    intro p state' hp
    by_cases hkind : e.kind = .view
    · simp [hkind, hp]
    · simp [hkind]
  unfold Absorbs reduceEnvelope
  by_cases hfwd : e.forwarded
  · rw [if_pos hfwd, if_pos hfwd, reduceBubbledEvent_eq_self_iff]
  rw [if_neg hfwd, if_neg hfwd]
  cases e.event with
  | messageAppended id role content => exact messageAppended_eq_self_iff.symm
  | streamDelta id kind fragment => exact streamDelta_eq_self_iff.symm
  | streamStarted id => simp
  | streamCompleted id =>
    simp only [ChatState.ext_iff, and_true, map_eq_self_iff]
    apply forall₂_congr
    intro message _
    by_cases hid : message.id = id
    · simp [hid, ChatMessage.ext_iff, @eq_comm _ false]
    · simp [hid]
  | turnStarted =>
    simp only [ChatState.ext_iff, true_and, and_true]
    constructor
    all_goals
      rintro ⟨hturn, husage, hchars, hint⟩
      exact ⟨hturn.symm, husage.symm, hchars.symm, hint.symm⟩
  | turnCompleted usage =>
    refine Iff.trans ?_ ended_eq_self_iff.symm
    simp [@eq_comm _ (some usage)]
  | turnAborted reason =>
    cases reason with
    | userInterrupt =>
      refine Iff.trans ?_ ended_eq_self_iff.symm
      simp [@eq_comm _ true]
    | error | streamInterrupted =>
      refine Iff.trans ?_ ended_eq_self_iff.symm
      simp [notice_eq_self_iff]
  | toolRequested id tool input =>
    dsimp only [toolRequested, AbsorbsRequest]
    by_cases htool : tool = "Task"
    · rw [if_neg (not_not_intro htool), upsert_eq_self_iff]
      simp [htool, ToolCard.ext_iff, or_eq_self_iff]
    · rw [if_pos htool, upsert_eq_self_iff]
      simp [htool, ToolCard.ext_iff, or_eq_self_iff, @eq_comm _ Status.running]
  | toolStarted id tool =>
    dsimp only [toolStarted]
    rw [upsert_eq_self_iff]
    simp [ToolCard.ext_iff, or_eq_self_iff, @eq_comm _ Status.running]
  | toolCompleted id isError linesAdded linesRemoved =>
    refine Iff.trans ?_ update_eq_self_iff.symm
    simp only [ToolCard.ext_iff, or_eq_self_iff, true_and]
    apply forall₃_congr
    intro card _ _
    rw [@eq_comm _ card.status]
  | errorRaised code message reason =>
    simp [ChatState.ext_iff, @eq_comm _ state.notice]
  | turnFailed message =>
    apply hview
    refine Iff.trans ?_ ended_eq_self_iff.symm
    simp [@eq_comm _ state.notice]
  | permissionRequest request requests expiresAt =>
    apply hview
    simp [ChatState.ext_iff, or_eq_self_iff]
  | permissionResolved =>
    apply hview
    simp [ChatState.ext_iff, @eq_comm _ none]
  | askRequest request requests expiresAt =>
    apply hview
    simp [ChatState.ext_iff, or_eq_self_iff]
  | askResolved =>
    apply hview
    simp [ChatState.ext_iff, @eq_comm _ none]
  | permissionMode mode =>
    apply hview
    simp [ChatState.ext_iff, or_eq_self_iff]
  | sessionAttached =>
    apply hview
    exact eq_comm
  | machineOffline | machineOnline | other => simp

/-! ### Deliveries -/

/-- An envelope that is new, or one that is sent again. -/
inductive Delivery where
  | next (e : Envelope)
  | again (e : Envelope)

/-- The envelopes that arrive. -/
def sent (ds : List Delivery) : List Envelope :=
  ds.map fun d =>
    match d with
    | .next e => e
    | .again e => e

/-- The envelopes that arrive, without those that are sent again. -/
def originals (ds : List Delivery) : List Envelope :=
  ds.filterMap fun d =>
    match d with
    | .next e => some e
    | .again _ => none

/-- The cursors of new envelopes increase, and what is sent again has arrived before. -/
structure Redelivery (ds : List Delivery) : Prop where
  increasing : (originals ds).Pairwise fun e e' => e.cursor < e'.cursor
  again : ∀ past e rest, ds = past ++ .again e :: rest → e ∈ originals past

/-- At every point what is shown is what would be shown without the envelopes sent again, if and
only if the state absorbs each of these when it arrives. -/
theorem redelivers_iff (texts : Texts) (ds : List Delivery) :
  (∀ past rest, ds = past ++ rest → run texts (sent past) = run texts (originals past)) ↔
    ∀ past e rest, ds = past ++ .again e :: rest → Absorbs texts (run texts (sent past)) e
  := by
  have hsent : ∀ past d, run texts (sent (past ++ [d])) =
      (sent [d]).foldl (reduceEnvelope texts) (run texts (sent past)) := by
    intro past d
    simp [run, sent]
  have hnext : ∀ past e, run texts (originals (past ++ [.next e])) =
      reduceEnvelope texts (run texts (originals past)) e := by
    intro past e
    simp [run, originals]
  have hagain : ∀ past e, run texts (originals (past ++ [.again e])) =
      run texts (originals past) := by
    intro past e
    simp [run, originals]
  constructor
  · intro h past e rest hds
    have hpre := h past (.again e :: rest) hds
    have hafter := h (past ++ [.again e]) rest (by simp [hds])
    rw [hsent, hagain, ← hpre] at hafter
    exact absorbs_iff.mpr hafter
  intro h past
  induction past using List.reverseRecOn with
  | nil => exact fun _ _ => rfl
  | append_singleton past d ih =>
  intro rest hds
  have hpre := ih (d :: rest) (by simp [hds])
  rw [hsent]
  cases d with
  | next e =>
    rw [hnext, ← hpre]
    rfl
  | again e =>
    have habsorbs := absorbs_iff.mp (h past e rest (by simp [hds]))
    rw [hagain, ← hpre]
    exact habsorbs

/-- A fragment of a message is sent again. -/
theorem not_redelivers :
  ¬ ∀ texts ds, Redelivery ds → run texts (sent ds) = run texts (originals ds)
  := by
  intro h
  have hredelivery : Redelivery [.next (.ofCore (.streamDelta "m" .text "a")),
      .again (.ofCore (.streamDelta "m" .text "a"))] := by
    constructor
    · exact pairwise_singleton _ _
    rintro (_ | ⟨d, _ | ⟨d', past⟩⟩) e rest hds
    · simp at hds
    · simp only [cons_append, nil_append, List.cons.injEq, Delivery.again.injEq] at hds
      obtain ⟨rfl, rfl, -⟩ := hds
      exact mem_cons_self
    · simp at hds
  have hchars := congrArg ChatState.streamedChars (h noTexts _ hredelivery)
  exact absurd hchars (by decide)

end SessionStream

end Client
