import VolundCode.Core.Answered

/-!
# Errors in the stream of a provider

A provider reports an error in one of two ways: its stream throws, or it brings a chunk of kind
`error` and then ends. The runner ends the turn as aborted in the first case. In the second case
`merge` passes over the chunk, so that the stream counts as finished: the router hears of a
success, and what has been streamed so far joins the conversation. An error chunk is handled as
an error exactly when something else ends the attempt too (`handledAsError_iff`).
-/

namespace Core

open ProviderKit Effect Run Runner

/-! ### Attempts -/

/-- What can happen while the stream of an attempt is read. -/
inductive Moment where
  | chunk (chunk : ProviderChunk) (answer : Except String (Option RouterDecision)) (now : ℤ)
  | interrupt

/-- The moment as something that happens to the runner. -/
def Moment.action : Moment → Action
  | .chunk c answer now => .chunk c answer now
  | .interrupt => .interrupt

/-- How a stream is over. -/
inductive Ending where
  | finished (onSuccess : Except String Unit) (now : ℤ)
  | threw (error : String) (now : ℤ)

/-- The ending as something that happens to the runner. -/
def Ending.action : Ending → Action
  | .finished onSuccess now => .streamEnd onSuccess now
  | .threw error now => .streamError error now

/-- All that happens from the start of an attempt to the end of its stream. -/
structure Stream where
  moments : List Moment
  ending : Ending

/-- The stream has an error chunk. -/
def Stream.HasError (stream : Stream) : Prop :=
  ∃ message answer now, .chunk (.error message) answer now ∈ stream.moments

/-- The stream has a chunk that says it was interrupted. -/
def Stream.Interrupted (stream : Stream) : Prop :=
  ∃ reason answer now, .chunk (.messageInterrupted reason) answer now ∈ stream.moments

/-- The router was asked about an interruption of the stream and decided to go on. -/
def Stream.Retries (stream : Stream) (next : RouterDecision) : Prop :=
  ∃ reason now, .chunk (.messageInterrupted reason) (.ok (some next)) now ∈ stream.moments

/-- The runner waits for a chunk. -/
def Runner.streams (r : Runner) : Bool :=
  match r.phase with
  | .streaming _ _ _ => true
  | _ => false

section Attempts

variable (env : Externals) (options : RunnerOptions)

/-- What happens to the runner, if it waits for it. -/
def Runner.undergo (r : Runner) (a : Action) : Runner :=
  (step env options r a).getD r

/-- The runner when the stream is over for the provider. -/
def Stream.read (stream : Stream) (r : Runner) : Runner :=
  stream.moments.foldl (fun r moment => r.undergo env options moment.action) r

/-- The runner past the attempt. -/
def Stream.attempt (stream : Stream) (r : Runner) : Runner :=
  (stream.read env options r).undergo env options stream.ending.action

/-- The router is told that the attempt was a success: the loop over the stream has come to its
end and the signal is not set. -/
def Stream.CallsOnSuccess (stream : Stream) (r : Runner) : Prop :=
  (stream.read env options r).streams ∧ (stream.read env options r).aborted = false ∧
    ∃ onSuccess now, stream.ending = .finished onSuccess now

/-- The attempt has failed: the conversation is as it was, and either the turn is about to end as
aborted or the router has decided to try again. -/
structure FailedAttempt (stream : Stream) (r t : Runner) : Prop where
  messages : t.state.messages = r.state.messages
  outcome : (t.phase = .closing ∧ t.endsAborted) ∨
    t.phase = .looping ∧ ∃ next, t.locals.retryDecision = some next ∧ stream.Retries next

/-- The attempt is handled as one that met an error: the router is not told of a success, the
attempt has failed, and a turn that is over with it is not recorded as done. -/
structure HandledAsError (stream : Stream) (r : Runner) : Prop where
  silent : ¬ stream.CallsOnSuccess env options r
  failed : FailedAttempt stream r (stream.attempt env options r)
  settled : (stream.attempt env options r).phase = .closing → ∀ now,
    ((stream.attempt env options r).leave (endTurn env options now)).state.turns =
      setStatus (stream.attempt env options r).locals.turnId .aborted
        (stream.attempt env options r).state.turns

end Attempts

/-! ### The end of an aborted turn -/

section Steps

variable {env : Externals} {options : RunnerOptions} {now : ℤ} {r : Runner}

/-- What sees only the turns of the session. -/
def SameTurns (r t : Runner) : Prop :=
  t.state.turns = r.state.turns

instance : IsPreorder Runner SameTurns :=
  inferInstanceAs (IsPreorder Runner (Same fun r => r.state.turns))

theorem emit_sameTurns (payload : Payload) :
  Within SameTurns (emit env now payload)
  := by
  intro r
  rw [wp_emit]
  split
  · apply rfl
  · apply rfl

/-- A turn that ends as aborted is not recorded as done. -/
theorem settle_aborted (h : r.endsAborted) :
  (r.leave (endTurn env options now)).state.turns = setStatus r.locals.turnId .aborted r.state.turns
  := by
  apply leave_of_wp (I := fun t =>
    t.state.turns = setStatus r.locals.turnId .aborted r.state.turns)
  unfold endTurn
  rw [wp_bind, wp_get, wp_bind, wp_update, if_pos h]
  have hrest : ∀ (s : Runner), s.state.turns = setStatus r.locals.turnId .aborted r.state.turns →
      wp (do
          emit env now (settledPayload r.endsAborted r.locals)
          options.taskRun.toList.forM fun task =>
            emit env now (taskPayload r.endsAborted r.locals now task)
          return Phase.idle)
        (fun _ t => t.state.turns = setStatus r.locals.turnId .aborted r.state.turns)
        (fun _ t => t.state.turns = setStatus r.locals.turnId .aborted r.state.turns) s := by
    intro s hs
    have hwithin : Within SameTurns (do
          emit env now (settledPayload r.endsAborted r.locals)
          options.taskRun.toList.forM fun task =>
            emit env now (taskPayload r.endsAborted r.locals now task)
          return Phase.idle) := by
      apply Within.bind (emit_sameTurns _)
      intro _
      apply Within.bind (Within.forM fun task _ => emit_sameTurns _)
      intro _
      apply Within.pure
    apply hwithin.mono
    all_goals
      intro _ t ht
      apply Eq.trans ht hs
  apply hrest
  rfl

/-! ### The message id of a stream -/

/-- The id of the message that is being streamed is not empty. -/
def Phase.Named : Phase → Prop
  | .streaming messageId _ _ => messageId ≠ ""
  | _ => True

/-- Code of the loop that returns to a named phase leaves the runner in one. -/
theorem attempt_named {code : Code Phase} (h : Returns Phase.Named code) :
  (r.attempt env now code).phase.Named
  := by
  apply attempt_of_wp (I := fun t => t.phase.Named)
  apply wp_mono (h r)
  · intro phase t hphase
    apply hphase
  intro e t _
  apply leave_of_wp (I := fun t => t.phase.Named)
  apply wp_mono (caught_returns t)
  · rintro _ _ rfl
    exact True.intro
  · intro _ _ _
    exact True.intro

/-- Code that returns to a named phase leaves the runner in one. -/
theorem leave_named {code : Code Phase} (h : Returns Phase.Named code) :
  (r.leave code).phase.Named
  := by
  apply leave_of_wp (I := fun t => t.phase.Named)
  apply wp_mono (h r)
  · intro phase t hphase
    apply hphase
  · intro _ _ _
    exact True.intro

/-- What follows an event knows that the event conforms. -/
theorem emit_returns (payload : Payload) :
  Returns (fun _ => payload.conforms) (emit env now payload)
  := by
  intro s
  rw [wp_emit]
  split
  · next h => apply h
  · exact True.intro

theorem beginPass_named {picked : Except String RouterDecision}
    {composed : Except String String} {compaction : Option (Except String Compaction)} :
  Returns Phase.Named (beginPass env options now picked composed compaction)
  := by
  apply Returns.bind
  intro r
  split
  · apply Returns.pure
    exact True.intro
  split
  · apply Returns.bind
    intro _
    apply Returns.bind
    intro _
    apply Returns.bind
    intro _
    apply Returns.pure
    exact True.intro
  split
  · apply Returns.bind
    intro _
    apply Returns.pure
    exact True.intro
  apply Returns.bind
  intro _
  apply Returns.bind
  intro decision
  apply Returns.bind
  intro _
  apply Returns.bind
  intro system
  apply Returns.bind
  intro _
  apply Returns.bind
  intro _
  apply Returns.bind
  intro messageId
  apply Returns.bind_of (emit_returns _)
  intro _ hconf
  apply Returns.pure
  simpa [Payload.conforms, Phase.Named] using hconf

/-- Wherever a stream is being read, its message has an id that is not empty. -/
theorem named_step {a : Action} {t : Runner} (h : r.phase.Named)
    (hstep : step env options r a = some t) :
  t.phase.Named
  := by
  cases move_of_step hstep with
  | run hphase =>
    apply leave_named
    apply Returns.bind
    intro _
    apply Returns.bind
    intro _
    apply Returns.bind
    intro _
    apply Returns.bind
    intro _
    apply Returns.bind
    intro _
    apply Returns.bind
    intro _
    apply Returns.pure
    exact True.intro
  | interrupt => apply h
  | pass hphase => apply attempt_named beginPass_named
  | chunk hphase =>
    rw [hphase] at h
    apply attempt_named
    apply receive_returns.imp
    rintro _ (rfl | rfl | rfl)
    · exact True.intro
    · exact True.intro
    · apply h
  | streamEnd hphase =>
    apply attempt_named
    apply Returns.bind
    intro s
    split
    · apply Returns.pure
      exact True.intro
    apply Returns.bind
    intro _
    apply Returns.bind
    intro _
    apply conclude_returns.imp
    rintro _ (⟨-, rfl⟩ | ⟨-, rfl⟩)
    all_goals exact True.intro
  | streamError hphase =>
    apply leave_named
    apply caught_returns.imp
    rintro _ rfl
    exact True.intro
  | toolsEnd hphase =>
    apply attempt_named
    apply Returns.bind
    intro _
    apply Returns.bind
    intro _
    apply Returns.pure
    exact True.intro
  | settle hphase =>
  apply leave_named
  apply Returns.bind
  intro s
  apply Returns.bind
  intro _
  apply Returns.bind
  intro _
  apply Returns.bind
  intro _
  apply Returns.pure
  exact True.intro

/-- In every run, the message of a stream that is being read has an id that is not empty. -/
theorem named_of_run {state : SessionState} {actions : List Action}
    (hrun : run (step env options) (.new state) actions = some r) :
  r.phase.Named
  := by
  apply run_invariant (I := fun r => r.phase.Named) (fun _ _ _ h hstep => named_step h hstep) _ hrun
  exact True.intro

/-! ### What one moment does -/

/-- The loop has thrown: the turn is about to end as aborted, with the conversation as it was. -/
theorem leave_caught (env : Externals) (now : ℤ) (r : Runner) (error : String) :
  (r.leave (caught env now error)).phase = .closing ∧
    (r.leave (caught env now error)).locals.failed ∧
    (r.leave (caught env now error)).state.messages = r.state.messages
  := by
  apply leave_of_wp (I := fun t =>
    t.phase = .closing ∧ t.locals.failed ∧ t.state.messages = r.state.messages)
  rw [caught, fail, wp_bind, wp_setLocals, wp_bind, wp_get, wp_bind, wp_emit_of_conforms rfl]
  use rfl, rfl
  rfl

/-- A chunk leads past the loop while the signal is set. -/
theorem attempt_receive_aborted {chunk : ProviderChunk}
    {answer : Except String (Option RouterDecision)} {messageId : String}
    {decision : RouterDecision} {current : InProgress} (habort : r.aborted) :
  r.attempt env now (receive env now chunk answer messageId decision current) =
    { r with phase := .closing }
  := by
  unfold receive
  apply attempt_of_wp (I := fun t => t = { r with phase := .closing })
  rw [wp_bind, wp_get, if_pos habort]
  rfl

/-- The end of a stream leads past the loop while the signal is set. -/
theorem attempt_endStream_aborted {onSuccess : Except String Unit} {messageId : String}
    {decision : RouterDecision} {current : InProgress} (habort : r.aborted) :
  r.attempt env now (endStream env now onSuccess messageId decision current) =
    { r with phase := .closing }
  := by
  unfold endStream
  apply attempt_of_wp (I := fun t => t = { r with phase := .closing })
  rw [wp_bind, wp_get, if_pos habort]
  rfl

/-- The chunk says that the stream was interrupted. -/
def ProviderChunk.interrupts : ProviderChunk → Bool
  | .messageInterrupted _ => true
  | _ => false

/-- Any other chunk is merged, and the stream is read on. -/
theorem attempt_receive_plain (env : Externals) (now : ℤ) {chunk : ProviderChunk}
    (answer : Except String (Option RouterDecision)) {messageId : String}
    (decision : RouterDecision) (current : InProgress) (habort : r.aborted = false)
    (hid : messageId ≠ "") (hchunk : chunk.interrupts = false) :
  (r.attempt env now (receive env now chunk answer messageId decision current)).phase =
      .streaming messageId decision (merge current chunk) ∧
    (r.attempt env now (receive env now chunk answer messageId decision current)).aborted = false ∧
    (r.attempt env now (receive env now chunk answer messageId decision current)).state = r.state
  := by
  have hemit : ∀ {kind : DeltaKind} {text : String},
      (Payload.streamDelta messageId kind text).conforms := by
    intro kind text
    simpa [Payload.conforms] using hid
  apply attempt_of_wp (I := fun t =>
    t.phase = .streaming messageId decision (merge current chunk) ∧ t.aborted = false ∧
      t.state = r.state)
  have hnot : ¬ r.aborted = true := by simp [habort]
  unfold receive
  rw [wp_bind, wp_get, if_neg hnot]
  cases chunk with
  | messageInterrupted reason => cases hchunk
  | textDelta text | thinkingDelta text | toolUseDelta id argsFragment =>
    simp [stick, deltaFragment, wp_emit_of_conforms hemit, habort, Runner.record]
  | toolUseStart id name | messageStart id | toolUseEnd id | usage usage
  | messageStop stopReason | error message => simp [stick, deltaFragment, habort]

/-- Where an interruption that throws nothing leads: past the loop with the turn failed, or to its
head with what the router decided. -/
def Interrupted (answer : Except String (Option RouterDecision)) (phase : Phase) (t : Runner) :
    Prop :=
  (phase = .closing ∧ t.locals.failed) ∨
    phase = .looping ∧ ∃ next, t.locals.retryDecision = some next ∧ answer = .ok (some next)

theorem interrupted_leads {reason : String} {answer : Except String (Option RouterDecision)}
    {decision : RouterDecision} {current : InProgress} :
  wp (interrupted env now reason answer decision current) (Interrupted answer) (fun _ _ => True) r
  := by
  unfold interrupted
  rw [wp_bind, wp_emit_of_conforms rfl]
  by_cases hpartial : (!current.tools.isEmpty) = true
  · rw [if_pos hpartial, fail, wp_bind, wp_setLocals, wp_bind, wp_emit_of_conforms rfl]
    left
    constructor
    · rfl
    · rfl
  rw [if_neg hpartial, wp_bind, wp_setLocals, wp_bind]
  cases answer with
  | error e => exact True.intro
  | ok answer =>
  cases answer with
  | none =>
    left
    constructor
    · rfl
    · rfl
  | some next =>
  rw [wp_ofExcept]
  dsimp only
  rw [wp_bind, wp_get, wp_ite]
  split
  · rw [fail, wp_bind, wp_setLocals, wp_bind, wp_emit_of_conforms rfl]
    left
    constructor
    all_goals rfl
  have hretry : ∀ {s : Runner}, wp (do
        setLocals fun l => { l with retryDecision := some next }
        return Phase.looping)
      (Interrupted (.ok (some next))) (fun _ _ => True) s := by
    intro s
    right
    use rfl, next
  rw [wp_ite]
  split
  · rw [wp_bind, wp_emit]
    split
    · apply hretry
    · exact True.intro
  · apply hretry

/-- Whatever the router answers when it is asked about an interruption, the attempt has failed: it
is tried again as the router says, or the turn is about to end as aborted. -/
theorem attempt_receive_interrupted (env : Externals) (now : ℤ) (reason : String)
    (answer : Except String (Option RouterDecision)) (messageId : String)
    (decision : RouterDecision) (current : InProgress) (habort : r.aborted = false) :
  let t := r.attempt env now
    (receive env now (.messageInterrupted reason) answer messageId decision current)
  t.state.messages = r.state.messages ∧ Interrupted answer t.phase t
  := by
  apply attempt_of_wp (I := fun t =>
    t.state.messages = r.state.messages ∧ Interrupted answer t.phase t)
  have hleads : wp (receive env now (.messageInterrupted reason) answer messageId decision current)
      (Interrupted answer) (fun _ _ => True) r := by
    have hnot : ¬ r.aborted = true := by simp [habort]
    unfold receive
    rw [wp_bind, wp_get, if_neg hnot]
    apply interrupted_leads
  apply wp_mono (wp_and ((sameMessages_ignores env).receive_within r) hleads)
  · intro phase t h
    use h.1
    apply h.2
  intro e t h
  obtain ⟨hphase, hfail, hmsgs⟩ := leave_caught env now t e
  use hmsgs.trans h.1
  left
  use hphase

/-! ### What an attempt does -/

/-- The stream is being read, and the conversation is that of the start of the attempt. -/
structure Reading (r s : Runner) : Prop where
  streaming : ∃ messageId decision current,
    s.phase = .streaming messageId decision current ∧ messageId ≠ ""
  messages : s.state.messages = r.state.messages

/-- The attempt has failed already, or it will with the next chunk or the end of its stream. -/
def Doomed (stream : Stream) (r s : Runner) : Prop :=
  (Reading r s ∧ s.aborted) ∨ FailedAttempt stream r s

/-- A chunk other than that of an interruption. -/
def Moment.calm : Moment → Bool
  | .chunk c _ _ => !c.interrupts
  | .interrupt => false

variable {stream : Stream} {s : Runner}

/-- What is waited for in a stream does not happen in an attempt that has failed. -/
theorem FailedAttempt.undergo (h : FailedAttempt stream r s) {a : Action}
    (ha : (∃ m : Moment, a = m.action) ∨ ∃ e : Ending, a = e.action) :
  FailedAttempt stream r (s.undergo env options a)
  := by
  have hstay : a ≠ .interrupt → s.undergo env options a = s := by
    intro hne
    have hphase : s.phase = .closing ∨ s.phase = .looping := by
      rcases h.outcome with h | h
      · left
        apply h.1
      · right
        apply h.1
    rcases ha with ⟨m, rfl⟩ | ⟨e, rfl⟩
    · cases m with
      | chunk c answer now =>
        rcases hphase with hphase | hphase
        all_goals simp [Runner.undergo, Moment.action, step, hphase]
      | interrupt => exact absurd rfl hne
    cases e with
    | finished onSuccess now | threw error now =>
      rcases hphase with hphase | hphase
      all_goals simp [Runner.undergo, Ending.action, step, hphase]
  by_cases hint : a = .interrupt
  · subst hint
    constructor
    · apply h.messages
    rcases h.outcome with ⟨hphase, -⟩ | ⟨hphase, next, hnext⟩
    · left
      use hphase
      simp [Runner.undergo, step, Runner.interrupt, endsAborted]
    · right
      use hphase, next
      apply hnext
  · rw [hstay hint]
    apply h

/-- An interrupt sets the signal and leaves the stream to be read on. -/
theorem Reading.interrupt (h : Reading r s) :
  Reading r (s.undergo env options .interrupt) ∧ (s.undergo env options .interrupt).aborted
  := by
  constructor
  · constructor
    · apply h.streaming
    · apply h.messages
  · rfl

/-- While the signal is not set, a chunk other than that of an interruption leaves the stream to be
read on. -/
theorem Reading.calm (env : Externals) (options : RunnerOptions) (h : Reading r s)
    (habort : s.aborted = false) {m : Moment} (hm : m.calm) :
  Reading r (s.undergo env options m.action) ∧ (s.undergo env options m.action).aborted = false
  := by
  obtain ⟨messageId, decision, current, hphase, hid⟩ := h.streaming
  cases m with
  | interrupt => cases hm
  | chunk c answer now =>
  have hstep : s.undergo env options (Moment.action (.chunk c answer now)) =
      s.attempt env now (receive env now c answer messageId decision current) := by
    simp [Runner.undergo, Moment.action, step, hphase]
  have hplain : c.interrupts = false := by simpa [Moment.calm] using hm
  obtain ⟨hnext, hstill, hstate⟩ := attempt_receive_plain env now answer decision current
    habort hid hplain
  rw [hstep]
  constructor
  · constructor
    · use messageId, decision, merge current c, hnext
    · rw [hstate]
      apply h.messages
  · apply hstill

/-- Anything else, or the signal being set, ends the attempt as failed, at the latest with the next
chunk. -/
theorem Reading.doomed (h : Reading r s) {m : Moment} (hmem : m ∈ stream.moments)
    (htrouble : s.aborted ∨ m.calm = false) :
  Doomed stream r (s.undergo env options m.action)
  := by
  obtain ⟨messageId, decision, current, hphase, hid⟩ := h.streaming
  cases m with
  | interrupt =>
    left
    apply h.interrupt
  | chunk c answer now =>
  have hstep : s.undergo env options (Moment.action (.chunk c answer now)) =
      s.attempt env now (receive env now c answer messageId decision current) := by
    simp [Runner.undergo, Moment.action, step, hphase]
  right
  rw [hstep]
  by_cases habort : s.aborted
  · rw [attempt_receive_aborted habort]
    constructor
    · apply h.messages
    · left
      use rfl
      simp [endsAborted, habort]
  have hclear : s.aborted = false := by simpa using habort
  cases c with
  | messageInterrupted reason =>
    obtain ⟨hmsgs, hleads⟩ := attempt_receive_interrupted env now reason
      answer messageId decision current hclear
    constructor
    · apply hmsgs.trans h.messages
    rcases hleads with ⟨hclose, hfail⟩ | ⟨hloop, next, hnext, rfl⟩
    · left
      use hclose
      simp [endsAborted, hfail]
    · right
      use hloop, next, hnext, reason, now
  | _ => simp [habort, Moment.calm, ProviderChunk.interrupts] at htrouble

/-- What happens in a stream does not save an attempt that is about to fail. -/
theorem Doomed.undergo (h : Doomed stream r s) {m : Moment} (hmem : m ∈ stream.moments) :
  Doomed stream r (s.undergo env options m.action)
  := by
  rcases h with ⟨hrdng, habort⟩ | hfail
  · apply hrdng.doomed hmem
    left
    apply habort
  right
  apply hfail.undergo
  left
  use m

/-- As long as only such chunks come, the stream is read on. -/
theorem Reading.read_calm (env : Externals) (options : RunnerOptions) {moments : List Moment}
    (h : Reading r s) (habort : s.aborted = false) (hcalm : ∀ m ∈ moments, m.calm) :
  Reading r (moments.foldl (fun r m => r.undergo env options m.action) s) ∧
    (moments.foldl (fun r m => r.undergo env options m.action) s).aborted = false
  := by
  induction moments generalizing s with
  | nil =>
    constructor
    · apply h
    · apply habort
  | cons m moments ih =>
  obtain ⟨hnext, hstill⟩ := h.calm env options habort
    (hcalm m (List.mem_cons_self))
  apply ih hnext hstill
  intro k hk
  apply hcalm k (List.mem_cons_of_mem m hk)

theorem Doomed.read {moments : List Moment} (h : Doomed stream r s)
    (hmem : ∀ m ∈ moments, m ∈ stream.moments) :
  Doomed stream r (moments.foldl (fun r m => r.undergo env options m.action) s)
  := by
  induction moments generalizing s with
  | nil => apply h
  | cons m moments ih =>
    apply ih (h.undergo (hmem m List.mem_cons_self))
    intro k hk
    apply hmem k (List.mem_cons_of_mem m hk)

/-- One moment that is not such a chunk is enough for the attempt to fail. -/
theorem Reading.read_doomed {moments : List Moment} (h : Reading r s)
    (hmem : ∀ m ∈ moments, m ∈ stream.moments)
    (htrouble : s.aborted ∨ ∃ m ∈ moments, m.calm = false) :
  Doomed stream r (moments.foldl (fun r m => r.undergo env options m.action) s)
  := by
  induction moments generalizing s with
  | nil =>
    left
    use h
    simpa using htrouble
  | cons m moments ih =>
  have hrest : ∀ k ∈ moments, k ∈ stream.moments := by
    intro k hk
    apply hmem k (List.mem_cons_of_mem m hk)
  by_cases hnow : s.aborted ∨ m.calm = false
  · have hdoomed : Doomed stream r (s.undergo env options m.action) :=
      h.doomed (hmem m List.mem_cons_self) hnow
    apply hdoomed.read hrest
  obtain ⟨habort, hcalm⟩ := not_or.mp hnow
  obtain ⟨hnext, hstill⟩ := h.calm env options
    (by simpa using habort) (by simpa using hcalm)
  apply ih hnext hrest
  right
  obtain habort' | ⟨k, hk, hkcalm⟩ := htrouble
  · exact absurd habort' habort
  · rcases List.mem_cons.mp hk with rfl | hk
    · exact absurd hkcalm hcalm
    · use k, hk

/-- A stream that throws ends the attempt as failed. -/
theorem Reading.threw (h : Reading r s) (error : String) (now : ℤ) :
  FailedAttempt stream r (s.undergo env options (Ending.action (.threw error now)))
  := by
  obtain ⟨messageId, decision, current, hphase, hid⟩ := h.streaming
  have hstep : s.undergo env options (Ending.action (.threw error now)) =
      s.leave (caught env now error) := by
    simp [Runner.undergo, Ending.action, step, hphase]
  obtain ⟨hclose, hfail, hmsgs⟩ := leave_caught env now s error
  rw [hstep]
  constructor
  · apply hmsgs.trans h.messages
  · left
    use hclose
    simp [endsAborted, hfail]

/-- Whatever the attempt came to, a turn that is over after it is not recorded as done if the
attempt has failed. -/
theorem FailedAttempt.settled (h : FailedAttempt stream r s) (hphase : s.phase = .closing)
    (now : ℤ) :
  (s.leave (endTurn env options now)).state.turns = setStatus s.locals.turnId .aborted s.state.turns
  := by
  apply settle_aborted
  rcases h.outcome with ⟨-, habort⟩ | ⟨hloop, -⟩
  · apply habort
  · rw [hphase] at hloop
    cases hloop

/-- An attempt that has failed without the router being told of a success is handled as one that
met an error. -/
theorem FailedAttempt.handledAsError (h : FailedAttempt stream r (stream.attempt env options r))
    (hsil : ¬ stream.CallsOnSuccess env options r) :
  HandledAsError env options stream r
  := by
  constructor
  · apply hsil
  · apply h
  · intro hphase now
    apply h.settled hphase

/-- Once the attempt is about to fail, it is handled as one that met an error. -/
theorem Doomed.handledAsError (h : Doomed stream r (stream.read env options r)) :
  HandledAsError env options stream r
  := by
  apply FailedAttempt.handledAsError
  · rcases h with ⟨hrdng, habort⟩ | hfail
    · obtain ⟨messageId, decision, current, hphase, hid⟩ := hrdng.streaming
      rw [Stream.attempt]
      cases stream.ending with
      | finished onSuccess now =>
        have hstep : (stream.read env options r).undergo env options
            (Ending.action (.finished onSuccess now)) =
            { stream.read env options r with phase := .closing } := by
          simp [Runner.undergo, Ending.action, step, hphase, attempt_endStream_aborted habort]
        rw [hstep]
        constructor
        · apply hrdng.messages
        · left
          use rfl
          simp [endsAborted, habort]
      | threw error now => apply hrdng.threw
    · apply hfail.undergo
      right
      use stream.ending
  rintro ⟨hstreams, habort, -⟩
  rcases h with ⟨-, hset⟩ | hfail
  · rw [habort] at hset
    cases hset
  · rcases hfail.outcome with ⟨hphase, -⟩ | ⟨hphase, -⟩
    all_goals simp [Runner.streams, hphase] at hstreams

end Steps

/-! ### Error chunks -/

/-- The runner at the start of the stream of a model call: its message is empty. -/
def Runner.StartsAttempt (r : Runner) : Prop :=
  ∃ messageId decision, r.phase = .streaming messageId decision .empty

/-- In every run, an attempt whose stream has an error chunk is handled as one that met an error
exactly when the turn is interrupted before the stream is over, the stream also says that it was
interrupted, or it ends by throwing. -/
theorem handledAsError_iff {env : Externals} {options : RunnerOptions} {state : SessionState}
    {actions : List Action} {r : Runner}
    (hrun : run (step env options) (.new state) actions = some r) (hstart : r.StartsAttempt)
    (stream : Stream) :
  (stream.HasError → HandledAsError env options stream r) ↔ (stream.HasError →
      r.aborted ∨ .interrupt ∈ stream.moments ∨ stream.Interrupted ∨
        ∃ error now, stream.ending = .threw error now)
  := by
  have hrdng : Reading r r := by
    obtain ⟨messageId, decision, hphase⟩ := hstart
    have hnamed := named_of_run hrun
    rw [hphase] at hnamed
    constructor
    · use messageId, decision, .empty, hphase
      apply hnamed
    · rfl
  constructor
  · intro hhandled herror
    by_contra hnone
    obtain ⟨habort, hinterrupt, hint, hthrew⟩ :
        ¬ r.aborted = true ∧ .interrupt ∉ stream.moments ∧ ¬ stream.Interrupted ∧
          ¬ ∃ error now, stream.ending = .threw error now := by
      simpa [not_or] using hnone
    have hcalm : ∀ m ∈ stream.moments, m.calm := by
      intro m hm
      cases m with
      | interrupt => exact absurd hm hinterrupt
      | chunk c answer now =>
      cases c with
      | messageInterrupted reason =>
        apply absurd _ hint
        use reason, answer, now
      | _ => rfl
    obtain ⟨hstill, hclear⟩ := hrdng.read_calm env options (by simpa using habort) hcalm
    apply (hhandled herror).silent
    obtain ⟨messageId, decision, current, hphase, -⟩ := hstill.streaming
    constructor
    · unfold Stream.read Runner.streams
      rw [hphase]
    use hclear
    cases hending : stream.ending with
    | finished onSuccess now => use onSuccess, now
    | threw error now =>
      apply absurd _ hthrew
      use error, now
  intro hcondition herror
  by_cases htrouble : r.aborted ∨ ∃ m ∈ stream.moments, m.calm = false
  · apply Doomed.handledAsError
    apply hrdng.read_doomed (fun m hm => hm) htrouble
  obtain ⟨habort, hcalm⟩ := not_or.mp htrouble
  have hthrew : ∃ error now, stream.ending = .threw error now := by
    rcases hcondition herror with hset | hinterrupt | ⟨reason, answer, now, hmem⟩ | hthrew
    · exact absurd hset habort
    · apply absurd _ hcalm
      use .interrupt, hinterrupt
      rfl
    · apply absurd _ hcalm
      use .chunk (.messageInterrupted reason) answer now, hmem
      rfl
    · apply hthrew
  obtain ⟨error, now, hending⟩ := hthrew
  apply FailedAttempt.handledAsError
  · obtain ⟨hstill, -⟩ := hrdng.read_calm env options (by simpa using habort)
      (by simpa using hcalm)
    rw [Stream.attempt, hending]
    apply hstill.threw
  · rintro ⟨-, -, onSuccess, now, hfinished⟩
    rw [hending] at hfinished
    cases hfinished

/-- The start of a turn, up to the stream of its model call. -/
def startedAttempt : List Action :=
  [.run [.text "go"] 1, .pass (.ok sampleDecision) (.ok "") none 2]

/-- A stream that brings some text and then an error chunk. -/
def failingStream (ending : Ending) : Stream where
  moments := [.chunk (.textDelta "partial") (.ok none) 3, .chunk (.error "overloaded") (.ok none) 4]
  ending := ending

theorem failingStream_hasError (ending : Ending) :
  (failingStream ending).HasError
  := by
  use "overloaded", .ok none, 4
  simp [failingStream]

theorem handledAsError_iff_failingStream :
  ∃ r, run (step sampleExternals .default) (.new sampleSession) startedAttempt = some r ∧
    HandledAsError sampleExternals .default (failingStream (.threw "overloaded" 5)) r
  := by
  have hreach : ∃ r, run (step sampleExternals .default) (.new sampleSession) startedAttempt =
      some r ∧ r.StartsAttempt := ⟨_, rfl, _, _, rfl⟩
  obtain ⟨r, hrun, hstart⟩ := hreach
  use r, hrun
  apply (handledAsError_iff hrun hstart _).mpr _ (failingStream_hasError _)
  intro _
  right
  right
  right
  use "overloaded", 5
  rfl

/-- A stream that ends after an error chunk is reported as a success, its text joins the
conversation, and the turn is not aborted. -/
theorem not_handledAsError :
  ∃ r, run (step sampleExternals .default) (.new sampleSession) startedAttempt = some r ∧
    r.StartsAttempt ∧ (failingStream (.finished (.ok ()) 5)).HasError ∧
    ¬ HandledAsError sampleExternals .default (failingStream (.finished (.ok ()) 5)) r ∧
    ((failingStream (.finished (.ok ()) 5)).attempt sampleExternals .default r).endsAborted =
      false ∧
    ((failingStream (.finished (.ok ()) 5)).attempt sampleExternals .default
      r).state.messages.length = r.state.messages.length + 1
  := by
  refine ⟨_, rfl, ⟨_, _, rfl⟩, failingStream_hasError _, ?_, rfl, rfl⟩
  intro h
  apply h.silent
  exact ⟨rfl, rfl, _, _, rfl⟩

end Core
