import VolundCode.Client.Chat
import VolundCode.Client.SessionStream

/-!
# What still moves on the screen when a turn has ended

A message is marked while it is streamed, and a card while its call is running. At the end of a turn
both clients settle the calls, but only the mobile one marks the messages as complete. The web client
leaves them as they are, so that nothing moves there after the end of a turn if and only if every
message that has been streamed was completed before (`still_iff`).
-/

namespace Client

open List

/-- The envelope ends a turn that is not of a subagent. -/
def Envelope.ends (e : Envelope) : Bool :=
  !e.forwarded &&
    match e.event with
    | .turnCompleted _ => true
    | .turnAborted _ => true
    | .turnFailed _ => e.kind = .view
    | _ => false

/-- Whether the message with an id is open after an envelope: text of it has come, and neither the
end of its stream nor the message itself since. -/
def Envelope.opens (e : Envelope) (id : String) (isOpen : Bool) : Bool :=
  if e.forwarded then isOpen
  else
    match e.event with
    | .streamDelta id' .text _ => id' = id || isOpen
    | .streamCompleted id' => id' ≠ id && isOpen
    | .messageAppended id' _ _ => id' ≠ id && isOpen
    | .sessionAttached => e.kind ≠ .view && isOpen
    | _ => isOpen

/-- The message with an id is open after a list of envelopes. -/
def isOpen (es : List Envelope) (id : String) : Bool :=
  es.foldl (fun isOpen e => e.opens id isOpen) false

/-! ### The web client -/

namespace SessionStream

variable {texts : Texts} {state : ChatState} {e : Envelope} {id id' : String}

/-- No message is streamed and no call is running. -/
def ChatState.Still (state : ChatState) : Prop :=
  (∀ message ∈ state.messages, message.streaming = false) ∧
    ∀ card ∈ state.tools, card.status ≠ .running

/-- The message with an id is streamed. -/
def streams (messages : List ChatMessage) (id : String) : Bool :=
  messages.any fun message => message.id = id && message.streaming

/-- A message that is not there is not streamed. -/
theorem streams_of_not_any {messages : List ChatMessage}
    (h : ¬ (messages.any fun message => message.id = id)) :
  streams messages id = false
  := by
  rw [streams, any_eq_false]
  intro message hmsg
  simp [ne_of_not_any h message hmsg]

/-- The messages with an id are streamed, or none of them is. -/
theorem streams_update (id' : String) (streaming : Bool) {f : ChatMessage → ChatMessage}
    {messages : List ChatMessage} (hid : ∀ message, (f message).id = message.id)
    (hf : ∀ message, message.id = id' → (f message).streaming = streaming)
    (hother : ∀ message, message.id ≠ id' → (f message).streaming = message.streaming) :
  streams (messages.map f) id =
    if id' = id then streaming && messages.any fun message => message.id = id
    else streams messages id
  := by
  induction messages with
  | nil => simp [streams]
  | cons message messages ih =>
  rw [map_cons, streams, any_cons, ← streams, ih, hid]
  by_cases hsame : id' = id
  · rw [if_pos hsame, if_pos hsame, any_cons]
    by_cases hmsg : message.id = id
    · rw [hf message (hmsg.trans hsame.symm), Bool.and_or_distrib_left, Bool.and_comm]
    · simp [hmsg]
  rw [if_neg hsame, if_neg hsame, streams, streams, any_cons]
  by_cases hmsg : message.id = id
  · rw [hother message fun h => hsame (h.symm.trans hmsg)]
  · simp [hmsg]

/-- A message is added. -/
theorem streams_append (messages : List ChatMessage) (message : ChatMessage) :
  streams (messages ++ [message]) id =
    (streams messages id || (message.id = id && message.streaming))
  := by simp [streams]

/-- No message is an echo. -/
def NoEcho (messages : List ChatMessage) : Prop :=
  ∀ message ∈ messages, message.isLocal = false

theorem NoEcho.map {messages : List ChatMessage} (h : NoEcho messages)
    {f : ChatMessage → ChatMessage} (hf : ∀ message, (f message).isLocal = message.isLocal) :
  NoEcho (messages.map f)
  := by
  intro message hmsg
  obtain ⟨old, hold, rfl⟩ := mem_map.mp hmsg
  exact (hf old).trans (h old hold)

theorem NoEcho.append {messages : List ChatMessage} (h : NoEcho messages) {message : ChatMessage}
    (hmsg : message.isLocal = false) :
  NoEcho (messages ++ [message])
  := by
  rw [NoEcho, forall_mem_append]
  exact ⟨h, by simpa using hmsg⟩

/-- A complete message is not streamed. -/
theorem streams_messageAppended (h : NoEcho state.messages) (role : Role)
    (content : List ContentPart) :
  NoEcho (messageAppended state id' role content).messages ∧
    streams (messageAppended state id' role content).messages id =
      (id' ≠ id && streams state.messages id)
  := by
  have hbase : (if role = .user then state.messages.filter fun message => !message.isLocal
      else state.messages) = state.messages := by
    split_ifs
    · apply filter_eq_self.mpr
      intro message hmsg
      rw [h message hmsg, Bool.not_false]
    · rfl
  unfold messageAppended
  simp only [hbase]
  by_cases hknown : (state.messages.any fun message => message.id = id')
  · rw [if_neg (by simp [hknown])]
    simp only [if_pos hknown]
    constructor
    · apply h.map
      intro message
      split_ifs
      all_goals rfl
    rw [streams_update id' false]
    · by_cases hid : id' = id
      all_goals simp [hid]
    all_goals
      intro message
      split_ifs
      all_goals simp_all
  have hnone : streams state.messages id = (id' ≠ id && streams state.messages id) := by
    by_cases hid : id' = id
    · rw [← hid, streams_of_not_any hknown, Bool.and_false]
    · simp [hid]
  by_cases hsil : (!(state.messages.any fun message => message.id = id') &&
      textOfContent content = "" && imagesOfContent content = []) = true
  · rw [if_pos hsil]
    exact ⟨h, hnone⟩
  rw [if_neg hsil]
  dsimp only
  rw [if_neg hknown]
  use h.append rfl
  rw [streams_append, Bool.and_false, Bool.or_false]
  exact hnone

/-- A message is streamed when text of it comes. -/
theorem streams_streamDelta (h : NoEcho state.messages) (fragment : String) :
  NoEcho (streamDelta state id' .text fragment).messages ∧
    streams (streamDelta state id' .text fragment).messages id =
      (id' = id || streams state.messages id)
  := by
  rw [streamDelta, if_neg (by decide)]
  by_cases hknown : (state.messages.any fun message => message.id = id')
  · simp only [if_pos hknown]
    constructor
    · apply h.map
      intro message
      split_ifs
      all_goals rfl
    rw [streams_update id' true]
    · by_cases hid : id' = id
      · rw [if_pos hid, ← hid, hknown]
        simp
      · simp [hid]
    all_goals
      intro message
      split_ifs
      all_goals simp_all
  · simp only [if_neg hknown]
    use h.append rfl
    rw [streams_append, Bool.and_true, Bool.or_comm]

/-- What an envelope does to the mark of a message. -/
theorem streams_reduceEnvelope (h : NoEcho state.messages) :
  NoEcho (reduceEnvelope texts state e).messages ∧
    streams (reduceEnvelope texts state e).messages id = e.opens id (streams state.messages id)
  := by
  rw [messages_reduceEnvelope, Envelope.opens]
  by_cases hfwd : e.forwarded
  · rw [if_pos hfwd, if_pos hfwd]
    exact ⟨h, rfl⟩
  rw [if_neg hfwd, if_neg hfwd]
  cases e.event with
  | messageAppended id' role content => exact streams_messageAppended h role content
  | streamDelta id' kind fragment =>
    cases kind with
    | text => exact streams_streamDelta h fragment
    | thinking | toolUse => exact ⟨h, rfl⟩
  | streamCompleted id' =>
    constructor
    · apply h.map
      intro message
      split_ifs
      all_goals rfl
    rw [streams_update id' false]
    · by_cases hid : id' = id
      all_goals simp [hid]
    all_goals
      intro message
      split_ifs
      all_goals simp_all
  | sessionAttached =>
    dsimp only
    split_ifs with hkind
    · exact ⟨forall_mem_nil _, by simp [hkind, streams]⟩
    · exact ⟨h, by simp [hkind]⟩
  | _ => exact ⟨h, rfl⟩

/-- The messages that are streamed after a list of envelopes are those that are open. -/
theorem streams_run (texts : Texts) (es : List Envelope) (id : String) :
  NoEcho (run texts es).messages ∧ streams (run texts es).messages id = isOpen es id
  := by
  induction es using List.reverseRecOn with
  | nil => exact ⟨forall_mem_nil _, rfl⟩
  | append_singleton es e ih =>
    rw [run, foldl_concat, isOpen, foldl_concat, ← isOpen, ← ih.2]
    exact streams_reduceEnvelope ih.1

/-- The end of a turn settles the calls and leaves the messages as they are. -/
theorem reduceEnvelope_of_ends (texts : Texts) (state : ChatState) (he : e.ends) :
  (reduceEnvelope texts state e).messages = state.messages ∧
    (reduceEnvelope texts state e).tools = settleRunningTools state
  := by
  obtain ⟨hfwd, hevent⟩ := Bool.and_eq_true _ _ ▸ he
  rw [Bool.not_eq_true'] at hfwd
  rw [reduceEnvelope, hfwd, if_neg Bool.false_ne_true]
  cases hkind : e.event with
  | turnCompleted usage => exact ⟨rfl, rfl⟩
  | turnAborted reason =>
    cases reason with
    | userInterrupt | error | streamInterrupted => exact ⟨rfl, rfl⟩
  | turnFailed message =>
    rw [hkind] at hevent
    dsimp only
    rw [if_pos (of_decide_eq_true hevent)]
    exact ⟨rfl, rfl⟩
  | _ =>
    rw [hkind] at hevent
    cases hevent

/-- Nothing moves after the end of a turn when no message is streamed before it. -/
theorem still_iff_streams (state : ChatState) (he : e.ends) :
  (reduceEnvelope texts state e).Still ↔ ∀ id, streams state.messages id = false
  := by
  obtain ⟨hmsgs, htools⟩ := reduceEnvelope_of_ends texts state he
  rw [ChatState.Still, hmsgs, htools, settleRunningTools_eq]
  constructor
  · rintro ⟨hstr, -⟩ id
    rw [streams, any_eq_false]
    intro message hmsg
    simp [hstr message hmsg]
  intro hnone
  constructor
  · intro message hmsg
    simpa using any_eq_false.mp (hnone message.id) message hmsg
  intro card hcard
  obtain ⟨old, -, rfl⟩ := mem_map.mp hcard
  split_ifs with hruns
  · exact Status.noConfusion
  · exact hruns

end SessionStream

/-! ### The mobile client -/

namespace Chat

variable {texts : Texts} {e : Envelope}

/-- No message is streamed and no call is running. -/
def ChatState.Still (state : ChatState) : Prop :=
  (∀ message ∈ state.messages, message.streaming = false) ∧
    ∀ card ∈ state.tools, card.status ≠ .running

/-- No message is streamed any more. -/
theorem finalizeStreaming_eq (messages : List ChatMessage) :
  ∀ message ∈ finalizeStreaming messages, message.streaming = false
  := by
  rw [finalizeStreaming, map_of_any]
  · intro message hmsg
    obtain ⟨old, -, rfl⟩ := mem_map.mp hmsg
    split_ifs with hstr
    · rfl
    · exact Bool.eq_false_iff.mpr hstr
  · intro message hmsg
    rw [if_neg (Bool.eq_false_iff.mp hmsg)]

/-- The end of a turn completes the messages and settles the calls. -/
theorem reduceEnvelope_of_ends (texts : Texts) (state : ChatState) (he : e.ends) :
  (reduceEnvelope texts state e).messages = finalizeStreaming state.messages ∧
    (reduceEnvelope texts state e).tools = settleRunningTools state.tools
  := by
  obtain ⟨hfwd, hevent⟩ := Bool.and_eq_true _ _ ▸ he
  rw [Bool.not_eq_true'] at hfwd
  rw [reduceEnvelope, hfwd, if_neg Bool.false_ne_true]
  cases hkind : e.event with
  | turnCompleted usage => exact ⟨rfl, rfl⟩
  | turnAborted reason =>
    cases reason with
    | userInterrupt | error | streamInterrupted => exact ⟨rfl, rfl⟩
  | turnFailed message =>
    rw [hkind] at hevent
    dsimp only
    rw [if_pos (of_decide_eq_true hevent)]
    exact ⟨rfl, rfl⟩
  | _ =>
    rw [hkind] at hevent
    cases hevent

/-- Nothing moves after the end of a turn. -/
theorem still_of_ends (state : ChatState) (he : e.ends) :
  (reduceEnvelope texts state e).Still
  := by
  obtain ⟨hmsgs, htools⟩ := reduceEnvelope_of_ends texts state he
  rw [ChatState.Still, hmsgs, htools, settleRunningTools_eq]
  use finalizeStreaming_eq state.messages
  intro card hcard
  obtain ⟨old, -, rfl⟩ := mem_map.mp hcard
  split_ifs with hruns
  · exact Status.noConfusion
  · exact hruns

end Chat

/-! ### Both clients -/

/-- Nothing moves in both clients after the envelopes. -/
def Still (texts texts' : Texts) (es : List Envelope) : Prop :=
  (SessionStream.run texts es).Still ∧ (Chat.run texts' es).Still

/-- Nothing moves after the end of a turn if and only if no message is open. -/
theorem still_iff (texts texts' : Texts) (es : List Envelope) {e : Envelope} (he : e.ends) :
  Still texts texts' (es ++ [e]) ↔ ∀ id, isOpen es id = false
  := by
  have hmobile : (Chat.run texts' (es ++ [e])).Still := by
    rw [Chat.run, foldl_concat]
    exact Chat.still_of_ends _ he
  rw [Still, and_iff_left hmobile, SessionStream.run, foldl_concat, SessionStream.still_iff_streams _ he]
  apply forall_congr'
  intro id
  rw [← (SessionStream.streams_run texts es id).2]
  rfl

/-- A message that is complete when its turn has. -/
theorem still_iff_completed :
  Still noTexts noTexts
      ([.ofCore (.streamDelta "m" .text "a"), .ofCore (.streamCompleted "m")] ++
        [.ofCore (.turnCompleted .null)]) ↔
    ∀ id, isOpen [.ofCore (.streamDelta "m" .text "a"), .ofCore (.streamCompleted "m")] id = false
  := still_iff noTexts noTexts _ rfl

/-- A turn is interrupted while a message is streamed: the web client goes on to show it as such. -/
theorem not_still :
  ¬ ∀ (texts texts' : Texts) (es : List Envelope) (e : Envelope), e.ends →
    Still texts texts' (es ++ [e])
  := by
  intro h
  have hstill := (h noTexts noTexts [.ofCore (.streamDelta "m" .text "a")]
    (.ofCore (.turnAborted .userInterrupt)) rfl).1.1
  apply absurd hstill (by decide)

end Client
