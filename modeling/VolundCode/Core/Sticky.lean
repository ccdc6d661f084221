import VolundCode.Core.Ledger

/-!
# One provider once a tool use has started

A turn takes its decisions from the router, from the router's answer to an interruption, and
from the provider it sticks to. Whatever the router answers, every stream a turn requests once a
tool use of a provider has started is requested of that provider (`Adheres`). What a stream has
brought when it is interrupted is dropped: its message never joins the conversation, and its
tools are not executed (`Drops`). Both hold of every run (`adheres_and_drops`).
-/

namespace Core

open ProviderKit Effect Run List Runner Nat

/-! ### What a run does with tools -/

/-- The message whose stream is being read. -/
def Phase.message : Phase → Option String
  | .streaming messageId _ _ => some messageId
  | _ => none

/-- The provider whose stream is being read. -/
def Phase.requested : Phase → Option ProviderClient
  | .streaming _ decision _ => some decision.provider
  | _ => none

/-- Tools are being executed. -/
def Phase.executes : Phase → Bool
  | .executing _ _ _ => true
  | _ => false

/-- The loop of a turn goes on. -/
def Phase.live : Phase → Bool
  | .looping => true
  | .streaming _ _ _ => true
  | .executing _ _ _ => true
  | _ => false

/-- A turn starts. -/
def Action.starts : Action → Bool
  | .run _ _ => true
  | _ => false

/-- Once a tool use of a provider has started, every stream that is requested before the next turn
is requested of that provider. -/
def Adheres (env : Externals) (options : RunnerOptions) (state : SessionState) : Prop :=
  ∀ (before after : List Action) (id name : String)
    (answer : Except String (Option RouterDecision)) (now : ℤ) (r t : Runner)
    (provider other : ProviderClient),
    run (step env options) (.new state) before = some r → r.phase.requested = some provider →
    run (step env options) r (.chunk (.toolUseStart id name) answer now :: after) = some t →
    (∀ a ∈ after, a.starts = false) → t.phase.requested = some other → other = provider

/-- The event tells of the execution of a tool. -/
def Payload.ofTool : Payload → Bool
  | .toolRequested _ _ _ => true
  | .toolStarted _ _ => true
  | .toolCompleted _ _ _ _ _ _ => true
  | _ => false

/-- Events were added, and none of them tells of the execution of a tool. -/
def Quiet (r t : Runner) : Prop :=
  ∃ added, t.events = r.events ++ added ∧ ∀ e ∈ added, e.payload.ofTool = false

/-- The messages that come out of a compaction. -/
def Action.snapshot : Action → List Message
  | .pass _ _ (some (.ok compaction)) _ => compaction.messages
  | _ => []

/-- The messages a run is given: those of its session and those of its compactions. -/
def givenTo (state : SessionState) (actions : List Action) : List Message :=
  state.messages ++ actions.flatMap Action.snapshot

/-- A message with the id is in the conversation without having been given, or was reported to have
joined it. -/
def Runner.Recorded (given : List Message) (r : Runner) (id : String) : Prop :=
  (∃ m ∈ r.state.messages, m ∉ given ∧ m.id = id) ∨
    ∃ e ∈ r.events, ∃ role content, e.payload = .messageAppended id role content

/-- Along the run, the tools of the message are not executed, the message is not recorded, and nothing
of it is carried over to another stream. -/
structure Dropped (env : Externals) (options : RunnerOptions) (state : SessionState)
    (actions : List Action) (messageId : String) : Prop where
  unexecuted : ∀ past a rest r t, actions = past ++ a :: rest →
    run (step env options) (.new state) past = some r → r.phase.message = some messageId →
    step env options r a = some t → t.phase.executes = false ∧ Quiet r t
  unrecorded : ∀ past rest r, actions = past ++ rest →
    run (step env options) (.new state) past = some r →
    ¬ r.Recorded (givenTo state actions) messageId
  fresh : ∀ past a rest r t id decision current, actions = past ++ a :: rest →
    run (step env options) (.new state) past = some r → step env options r a = some t →
    t.phase = .streaming id decision current → r.phase.message ≠ some id → current = .empty

/-- A message whose stream is interrupted is dropped. -/
def Drops (env : Externals) (options : RunnerOptions) (state : SessionState) : Prop :=
  ∀ (before after : List Action) (reason : String)
    (answer : Except String (Option RouterDecision)) (now : ℤ) (r t : Runner) (messageId : String),
    run (step env options) (.new state) before = some r → r.phase.message = some messageId →
    run (step env options) r (.chunk (.messageInterrupted reason) answer now :: after) = some t →
    Dropped env options state (before ++ .chunk (.messageInterrupted reason) answer now :: after)
      messageId

/-! ### Code of the loop -/

section Loop

variable {env : Externals} {options : RunnerOptions} {now : ℤ} {r : Runner}

variable {code : Code Phase}

/-- What holds past the loop and where its code ends holds where the code leaves the runner. -/
theorem Runner.attempt_of_ok {I : Runner → Prop}
    (hclose : ∀ t : Runner, I { t with phase := .closing })
    (h : wp code (fun phase t => I { t with phase := phase }) (fun _ _ => True) r) :
  I (r.attempt env now code)
  := by
  apply attempt_of_wp
  apply wp_mono h
  · intro _ _ ht
    apply ht
  intro e t _
  apply leave_of_wp
  apply caught_succeeds.wp (E := fun _ _ => True)
  apply wp_mono (caught_returns t)
  · rintro _ u rfl
    apply hclose
  · intro _ _ _
    exact True.intro

/-- What the loop throws ends the loop. -/
theorem leave_caught_not_live {error : String} :
  (r.leave (caught env now error)).phase.live = false
  := by
  rcases leave_returns caught_returns with h | h
  · rw [h]
    rfl
  · rw [h]
    rfl

/-- The end of a turn is past its loop. -/
theorem leave_endTurn_not_live :
  (r.leave (endTurn env options now)).phase.live = false
  := by
  rcases leave_returns endTurn_returns with h | h
  · rw [h]
    rfl
  · rw [h]
    rfl

/-- What code that leaves `run` on an error leaves alone. -/
theorem Runner.leave_within {R : Runner → Runner → Prop}
    (hphase : ∀ (s t : Runner) phase, R s t → R s { t with phase := phase })
    (hcode : Within R code) :
  R r (r.leave code)
  := by
  apply leave_of_wp (I := R r)
  apply hcode.mono
  · intro phase t ht
    apply hphase r t phase ht
  · intro _ t ht
    apply hphase r t .idle ht

/-- What code of the loop leaves alone. -/
theorem Runner.attempt_within {R : Runner → Runner → Prop} (hR : Ignores env R)
    (hphase : ∀ (s t : Runner) phase, R s t → R s { t with phase := phase })
    (hcode : Within R code) :
  R r (r.attempt env now code)
  := by
  have := hR.toIsPreorder
  apply attempt_of_wp (I := R r)
  apply hcode.mono
  · intro phase t ht
    apply hphase r t phase ht
  · intro e t ht
    apply trans_of R ht (leave_within hphase (hR.caught_within e))

/-! ### The provider of a turn -/

/-- Where the runner waits, what it holds on to agrees: a retry and a stream are of the provider the
turn sticks to, and a retry waits only at the head of the loop. -/
def Runner.Steady (r : Runner) : Prop :=
  match r.phase with
  | .looping =>
    ∀ provider decision, r.locals.sticky = some provider →
      r.locals.retryDecision = some decision → decision.provider = provider
  | .streaming _ decision _ =>
    r.locals.retryDecision = none ∧
      ∀ provider, r.locals.sticky = some provider → decision.provider = provider
  | .executing _ _ _ => r.locals.retryDecision = none
  | _ => True

/-- The runner is steady, and in the loop it sticks to the providers it stuck to. -/
def Follows (r t : Runner) : Prop :=
  t.Steady ∧ (t.phase.live →
    ∀ provider, r.locals.sticky = some provider → t.locals.sticky = some provider)

/-- Past the loop nothing is held on to. -/
theorem follows_of_not_live {t : Runner} (h : t.phase.live = false) :
  Follows r t
  := by
  constructor
  · unfold Runner.Steady
    cases hphase : t.phase with
    | idle | closing => exact True.intro
    | looping | streaming _ _ _ | executing _ _ _ => rw [hphase] at h; cases h
  · intro hlive
    rw [h] at hlive
    cases hlive

theorem follows_closing (r t : Runner) :
  Follows r { t with phase := .closing }
  := follows_of_not_live rfl

/-- The provider the turn sticks to and the retry are the same, and ids are only drawn. -/
def Steers (r t : Runner) : Prop :=
  t.locals.sticky = r.locals.sticky ∧ t.locals.retryDecision = r.locals.retryDecision ∧
    r.drawn ≤ t.drawn

instance : IsPreorder Runner Steers where
  refl _ := ⟨rfl, rfl, Nat.le_refl _⟩
  trans _ _ _ h h' := ⟨h'.1.trans h.1, h'.2.1.trans h.2.1, Nat.le_trans h.2.2 h'.2.2⟩

theorem emit_steers (payload : Payload) :
  Within Steers (emit env now payload)
  := by
  intro r
  rw [wp_emit]
  split
  · exact ⟨rfl, rfl, le_succ _⟩
  · apply refl_of Steers

theorem update_steers (recipe : SessionState → SessionState) :
  Within Steers (update recipe)
  := fun _ => ⟨rfl, rfl, Nat.le_refl _⟩

theorem drawId_steers :
  Within Steers (drawId env)
  := fun _ => ⟨rfl, rfl, Nat.le_succ _⟩

theorem setLocals_steers {f : Locals → Locals}
    (h : ∀ l, (f l).sticky = l.sticky ∧ (f l).retryDecision = l.retryDecision) :
  Within Steers (setLocals f)
  := fun r => ⟨(h r.locals).1, (h r.locals).2, Nat.le_refl _⟩

theorem applyCompaction_steers (compaction : Except String Compaction) :
  Within Steers (applyCompaction env now compaction)
  := by
  apply Within.bind Within.get
  intro s
  apply Within.bind (update_steers _)
  intro _
  apply Within.bind (Within.ofExcept compaction)
  intro snapshot
  apply Within.bind (update_steers _)
  intro _
  apply emit_steers

/-- `systemPromptSnapshot` is kept up to date. -/
theorem setPrompt_steers (system : String) :
  Within Steers (modify fun r : Runner =>
    if r.state.systemPromptSnapshot = some system then r
    else
      { r with
        state := updateSession r.state fun s => { s with systemPromptSnapshot := some system } } :
    Code PUnit)
  := by
  apply Within.modify
  intro r
  split
  · apply refl_of Steers
  · exact ⟨rfl, rfl, le_refl _⟩

variable {current : InProgress}

theorem startTools_steers {toolUses : List ToolUse} :
  Within Steers (startTools env now toolUses current)
  := by
  rw [startTools]
  split
  · apply Within.pure
  apply Within.bind (setLocals_steers (by intro l; exact ⟨rfl, rfl⟩))
  intro _
  apply Within.bind (Within.forM fun tool _ => emit_steers _)
  intro _
  apply Within.bind (Within.forM fun tool _ => emit_steers _)
  intro _
  apply Within.pure

theorem spend_steers (usage : Usage) :
  Within Steers (spend usage)
  := by
  apply Within.bind (setLocals_steers (by intro l; exact ⟨rfl, rfl⟩))
  intro _
  apply update_steers

variable {messageId : String} {decision : RouterDecision}

theorem endStream_steers {onSuccess : Except String Unit} :
  Within Steers (endStream env now onSuccess messageId decision current)
  := by
  apply Within.bind Within.get
  intro s
  split
  · apply Within.pure
  apply Within.bind (Within.ofExcept onSuccess)
  intro _
  apply Within.bind (update_steers _)
  intro _
  apply Within.bind (Within.forM fun usage _ => spend_steers usage)
  intro _
  apply Within.bind (setLocals_steers (by intro l; exact ⟨rfl, rfl⟩))
  intro _
  apply Within.bind (emit_steers _)
  intro _
  apply Within.bind (emit_steers _)
  intro _
  apply startTools_steers

theorem endTools_steers {outcome : String → Except String Settled} {toolUses : List ToolUse}
    {startedAt : ℤ} :
  Within Steers (endTools env now outcome toolUses startedAt current)
  := by
  apply Within.bind (Within.ofExcept _)
  intro results
  apply Within.bind
  · apply Within.forM
    intro result _
    apply Within.bind
    · apply Within.bind drawId_steers
      intro _
      apply Within.pure
    intro m
    apply Within.bind (update_steers _)
    intro _
    apply Within.bind (emit_steers _)
    intro _
    apply emit_steers
  · intro _
    apply Within.pure

/-- The decision of a pass is of the provider the turn sticks to. -/
theorem chooseDecision_wp {picked : Except String RouterDecision}
    (h : ∀ provider decision, r.locals.sticky = some provider →
      r.locals.retryDecision = some decision → decision.provider = provider) :
  wp (chooseDecision picked)
    (fun decision t => t = r ∧
      ∀ provider, r.locals.sticky = some provider → decision.provider = provider)
    (fun _ _ => True) r
  := by
  rw [chooseDecision, wp_bind, wp_get]
  dsimp only
  cases hretry : r.locals.retryDecision with
  | some decision =>
    rw [wp_pure]
    use rfl
    intro provider hstick
    apply h provider decision hstick hretry
  | none =>
  cases hstick : r.locals.sticky with
  | some provider =>
    rw [wp_pure]
    use rfl
    intro provider' heq
    apply Option.some.inj heq
  | none =>
  rw [wp_ofExcept]
  cases picked with
  | ok decision =>
    use rfl
    intro _ heq
    cases heq
  | error e => exact True.intro

/-- The head of the loop leads past the loop, or to the start of a stream with an id it drew, of the
provider the turn sticks to. -/
theorem beginPass_wp {picked : Except String RouterDecision} {composed : Except String String}
    {compaction : Option (Except String Compaction)}
    (h : ∀ provider decision, r.locals.sticky = some provider →
      r.locals.retryDecision = some decision → decision.provider = provider) :
  wp (beginPass env options now picked composed compaction)
    (fun phase t => phase = .closing ∨
      ∃ n decision, phase = .streaming (env.uuidv7 n) decision .empty ∧ r.drawn ≤ n ∧
        n < t.drawn ∧ t.locals.sticky = r.locals.sticky ∧ t.locals.retryDecision = none ∧
        ∀ provider, r.locals.sticky = some provider → decision.provider = provider)
    (fun _ _ => True) r
  := by
  rw [beginPass, wp_bind, wp_get, wp_ite]
  by_cases habort : r.aborted
  · rw [if_pos habort]
    left
    rfl
  rw [if_neg habort]
  cases exhaustedBudget options r.state (now - r.locals.turnStartedAt) r.locals.toolCalls with
  | some dimension =>
    rw [wp_bind]
    apply (emit_steers _).mono
    · intro _ t _
      left
      rfl
    · intro _ t _
      exact True.intro
  | none =>
  rw [wp_ite]
  by_cases hloops : options.maxToolLoopsPerTurn ≤ r.locals.loops
  · rw [if_pos hloops, wp_bind]
    apply (emit_steers _).mono
    · intro _ t _
      left
      rfl
    · intro _ t _
      exact True.intro
  rw [if_neg hloops, wp_bind, wp_setLocals, wp_bind]
  refine wp_mono (chooseDecision_wp ?_) ?_ ?_
  · apply h
  · rintro decision _ ⟨rfl, hdec⟩
    rw [wp_bind, wp_setLocals, wp_bind]
    apply (Within.ofExcept (R := Steers) composed).mono
    · intro system s hs
      rw [wp_bind]
      apply (setPrompt_steers system).mono
      · intro _ t ht
        rw [wp_bind]
        apply (Within.forM fun c _ => applyCompaction_steers c).mono
        · intro _ u hu
          rw [wp_bind, wp_drawId, wp_bind]
          have hsteers := trans_of Steers (trans_of Steers hs ht) hu
          apply (emit_steers _).mono
          · intro _ v hv
            right
            use u.drawn, decision, rfl, hsteers.2.2, hv.2.2
            use hv.1.trans hsteers.1, hv.2.1.trans hsteers.2.1
          · intro _ _ _
            exact True.intro
        · intro _ _ _
          exact True.intro
      · intro _ _ _
        exact True.intro
    · intro _ _ _
      exact True.intro
  · intro _ _ _
    exact True.intro

/-- A pass keeps to the provider the turn sticks to. -/
theorem follows_beginPass {picked : Except String RouterDecision} {composed : Except String String}
    {compaction : Option (Except String Compaction)} (hphase : r.phase = .looping) (h : r.Steady) :
  Follows r (r.attempt env now (beginPass env options now picked composed compaction))
  := by
  rw [Runner.Steady, hphase] at h
  apply attempt_of_ok (follows_closing r)
  apply wp_mono (beginPass_wp h)
  · rintro _ t (rfl | ⟨n, decision, rfl, _, _, hstick, hretry, hdec⟩)
    · apply follows_closing
    constructor
    · use hretry
      intro provider heq
      apply hdec provider
      rw [← hstick]
      apply heq
    · intro _ provider heq
      apply hstick.trans heq
  · intro _ _ _
    exact True.intro

/-! ### Chunks -/

theorem Quiet.refl (r : Runner) :
  Quiet r r
  := by
  use [], by simp
  simp

theorem Quiet.trans {s t : Runner} (h : Quiet r s) (h' : Quiet s t) :
  Quiet r t
  := by
  obtain ⟨added, hs, hadded⟩ := h
  obtain ⟨more, ht, hmore⟩ := h'
  use added ++ more, by rw [ht, hs, append_assoc]
  intro e he
  rcases mem_append.mp he with he | he
  · apply hadded e he
  · apply hmore e he

/-- Events were added that tell of no tool, and the variables of the turn are the same. -/
def Calm (r t : Runner) : Prop :=
  t.locals = r.locals ∧ Quiet r t

instance : IsPreorder Runner Calm where
  refl r := ⟨rfl, .refl r⟩
  trans _ _ _ h h' := ⟨h'.1.trans h.1, h.2.trans h'.2⟩

theorem emit_calm {payload : Payload} (h : payload.ofTool = false) :
  Within Calm (emit env now payload)
  := by
  intro r
  rw [wp_emit]
  split
  · use rfl, [{ id := env.uuidv7 r.drawn, version := r.state.version, sessionId := r.state.id,
                turnId := some r.locals.turnId, parentTurnId := none, parentDepth := none,
                payload := payload, time := now }], rfl
    intro e he
    rw [mem_singleton.mp he]
    apply h
  · apply refl_of Calm

/-- Catching an error tells of no tool. -/
theorem caught_quiet (error : String) :
  wp (caught env now error) (fun _ => Quiet r) (fun _ => Quiet r) r
  := by
  rw [caught, wp_bind, fail, wp_setLocals, wp_bind, wp_get, wp_bind]
  apply (emit_calm rfl).mono
  all_goals
    intro _ t ht
    apply ht.2

variable {answer : Except String (Option RouterDecision)}

/-- An interruption leads past the loop, or to its head with a retry by the provider the turn sticks
to. -/
theorem interrupted_wp {reason : String} :
  wp (interrupted env now reason answer decision current)
    (fun phase t => Quiet r t ∧ (phase = .closing ∨
      phase = .looping ∧ t.locals.sticky = r.locals.sticky ∧
        ∀ provider next, r.locals.sticky = some provider →
          t.locals.retryDecision = some next → next.provider = provider))
    (fun _ t => Quiet r t) r
  := by
  rw [interrupted, wp_bind]
  apply (emit_calm rfl).mono
  · rintro _ s ⟨hs, hquiet⟩
    have hsame : s.locals.sticky = r.locals.sticky := congrArg Locals.sticky hs
    rw [wp_ite]
    by_cases hpartial : (!current.tools.isEmpty) = true
    · rw [if_pos hpartial, wp_bind, fail, wp_setLocals, wp_bind]
      apply (emit_calm rfl).mono
      · rintro _ t ⟨_, ht⟩
        use hquiet.trans ht
        left
        rfl
      · rintro _ t ⟨_, ht⟩
        apply hquiet.trans ht
    rw [if_neg hpartial, wp_bind, wp_setLocals, wp_bind, wp_ofExcept]
    cases answer with
    | error e => apply hquiet
    | ok next =>
    cases next with
    | none =>
      dsimp only
      rw [wp_bind, fail, wp_setLocals]
      use hquiet
      left
      rfl
    | some next =>
    dsimp only
    rw [wp_bind, wp_get, wp_ite]
    dsimp only
    by_cases hother : (s.locals.sticky.any (· ≠ next.provider))
    · rw [if_pos hother, wp_bind, fail, wp_setLocals, wp_bind]
      apply (emit_calm rfl).mono
      · rintro _ t ⟨_, ht⟩
        use hquiet.trans ht
        left
        rfl
      · rintro _ t ⟨_, ht⟩
        apply hquiet.trans ht
    rw [if_neg hother]
    have hnext : ∀ provider retry, r.locals.sticky = some provider →
        some next = some retry → retry.provider = provider := by
      intro provider retry hstick hsome
      cases hsome
      by_contra hne
      apply hother
      rw [hsame, hstick]
      apply decide_eq_true (Ne.symm hne)
    rw [wp_ite]
    by_cases hswitch : next.provider ≠ decision.provider
    · rw [if_pos hswitch, wp_bind]
      apply (emit_calm rfl).mono
      · rintro _ t ⟨ht, hadded⟩
        rw [wp_bind, wp_setLocals]
        use hquiet.trans hadded
        right
        use rfl, (congrArg Locals.sticky ht).trans hsame
      · rintro _ t ⟨_, ht⟩
        apply hquiet.trans ht
    rw [if_neg hswitch, wp_bind, wp_setLocals]
    use hquiet
    right
    use rfl, hsame
  · rintro _ s ⟨_, hquiet⟩
    apply hquiet


/-- The provider the turn sticks to past a chunk of a stream of `provider`. -/
def stickyAfter (provider : ProviderClient) (sticky : Option ProviderClient) :
    ProviderChunk → Option ProviderClient
  | .toolUseStart _ _ => sticky <|> some provider
  | _ => sticky

variable {chunk : ProviderChunk}

/-- The turn sticks to a provider it stuck to, or to that of the stream. -/
theorem stickyAfter_eq_some {provider other : ProviderClient} {sticky : Option ProviderClient}
    (h : stickyAfter provider sticky chunk = some other) :
  sticky = some other ∨ other = provider
  := by
  rw [stickyAfter.eq_def] at h
  split at h
  · cases sticky with
    | none =>
      right
      apply (Option.some.inj h).symm
    | some _ =>
      left
      apply h
  · left
    apply h

/-- The turn goes on to stick to a provider it stuck to. -/
theorem stickyAfter_of_eq_some {provider other : ProviderClient}
    {sticky : Option ProviderClient} (h : sticky = some other) :
  stickyAfter provider sticky chunk = some other
  := by
  rw [stickyAfter.eq_def, h]
  split
  · rfl
  · rfl

theorem stick_wp {provider : ProviderClient} (chunk : ProviderChunk) {E : String → Runner → Prop} :
  wp (stick provider chunk)
    (fun _ t => t.events = r.events ∧ t.locals.retryDecision = r.locals.retryDecision ∧
      t.locals.sticky = stickyAfter provider r.locals.sticky chunk) E r
  := by
  cases chunk with
  | _ => exact ⟨rfl, rfl, rfl⟩

/-- A chunk tells of no tool, and leads past the loop, to its head if it interrupts the stream, or
else on in the stream. -/
theorem receive_wp :
  wp (receive env now chunk answer messageId decision current)
    (fun phase t => Quiet r t ∧ (phase = .closing ∨
      (phase = .looping ∧ t.locals.sticky = r.locals.sticky ∧
        ∀ provider next, r.locals.sticky = some provider →
          t.locals.retryDecision = some next → next.provider = provider) ∨
      (phase = .streaming messageId decision (merge current chunk) ∧
        (∀ reason, chunk ≠ .messageInterrupted reason) ∧
        t.locals.retryDecision = r.locals.retryDecision ∧
        t.locals.sticky = stickyAfter decision.provider r.locals.sticky chunk)))
    (fun _ t => Quiet r t) r
  := by
  rw [receive.eq_def, wp_bind, wp_get, wp_ite]
  by_cases habort : r.aborted
  · rw [if_pos habort]
    use .refl r
    left
    rfl
  rw [if_neg habort]
  split
  · rename_i reason
    apply wp_mono interrupted_wp
    · rintro phase t ⟨hquiet, hphase | hloop⟩
      · use hquiet
        left
        apply hphase
      use hquiet
      right
      left
      apply hloop
    · intro _ t ht
      apply ht
  rename_i _ hchunk
  rw [wp_bind]
  apply wp_mono (stick_wp chunk)
  · rintro _ s ⟨hevents, hretry, hstick⟩
    have hquiet : Quiet r s := by
      use [], by rw [hevents, append_nil]
      simp
    rw [wp_bind]
    apply (Within.forM fun fragment _ => emit_calm rfl).mono
    · rintro _ t ⟨hlocals, ht⟩
      use hquiet.trans ht
      right
      right
      use rfl, fun reason heq => hchunk reason heq
      rw [hlocals]
      use hretry
    · rintro _ t ⟨_, ht⟩
      apply hquiet.trans ht
  · intro _ _ h
    apply h

/-- A chunk tells of no tool. -/
theorem attempt_receive_quiet :
  Quiet r (r.attempt env now (receive env now chunk answer messageId decision current))
  := by
  apply attempt_of_wp (I := Quiet r)
  apply wp_mono receive_wp
  · rintro phase t ⟨ht, _⟩
    apply ht
  intro e t ht
  apply leave_of_wp (I := Quiet r)
  apply wp_mono (caught_quiet e)
  all_goals
    intro _ u hu
    apply ht.trans hu

/-- A chunk keeps to the provider the turn sticks to, and the turn sticks to the provider of a stream
once a tool use starts in it. -/
theorem follows_receive
    (hphase : r.phase = .streaming messageId decision current) (h : r.Steady) :
  Follows r (r.attempt env now (receive env now chunk answer messageId decision current))
  := by
  rw [Runner.Steady, hphase] at h
  obtain ⟨hretry, hdec⟩ := h
  apply attempt_of_ok (follows_closing r)
  apply wp_mono receive_wp
  · rintro _ t ⟨_, rfl | ⟨rfl, hstick, hnext⟩ | ⟨rfl, _, hretry', hstick⟩⟩
    · apply follows_closing
    · constructor
      · intro provider next hprov
        rw [hstick] at hprov
        apply hnext provider next hprov
      · intro _ provider hprov
        apply hstick.trans hprov
    constructor
    · use hretry'.trans hretry
      intro provider hprov
      rw [hstick] at hprov
      rcases stickyAfter_eq_some hprov with hprov | heq
      · apply hdec provider hprov
      · apply heq.symm
    · intro _ provider hprov
      rw [hstick]
      apply stickyAfter_of_eq_some hprov
  · intro _ _ _
    exact True.intro


/-- Once a tool use starts in a stream, the turn sticks to its provider. -/
theorem sticks_of_toolUseStart {id name : String}
    (hphase : r.phase = .streaming messageId decision current) (h : r.Steady)
    (hlive : (r.attempt env now
      (receive env now (.toolUseStart id name) answer messageId decision current)).phase.live =
        true) :
  (r.attempt env now
    (receive env now (.toolUseStart id name) answer messageId decision current)).locals.sticky =
      some decision.provider
  := by
  rw [Runner.Steady, hphase] at h
  revert hlive
  apply attempt_of_ok
    (I := fun t => t.phase.live → t.locals.sticky = some decision.provider)
  · intro _ hlive
    cases hlive
  rw [receive, wp_bind, wp_get, wp_ite]
  by_cases habort : r.aborted
  · rw [if_pos habort]
    intro hlive
    cases hlive
  · rw [if_neg habort]
    intro _
    change (r.locals.sticky <|> some decision.provider) = some decision.provider
    cases hstick : r.locals.sticky with
    | none => rfl
    | some provider => rw [h.2 provider hstick]; rfl
  · nofun

/-- Code of the loop that only steers leads to a steady runner if a stream or the execution of tools
came before it. -/
theorem follows_of_steers (hretry : r.locals.retryDecision = none) (hcode : Within Steers code)
    (hret : Returns (fun phase => phase = .closing ∨ phase = .looping ∨
      ∃ toolUses startedAt current, phase = .executing toolUses startedAt current) code) :
  Follows r (r.attempt env now code)
  := by
  apply attempt_of_ok (follows_closing r)
  apply wp_mono (wp_and (hcode r) (hret r))
  · rintro phase t ⟨⟨hstick, hsame, _⟩, hphase⟩
    have hsticks : ∀ provider, r.locals.sticky = some provider →
        t.locals.sticky = some provider := fun _ heq => hstick.trans heq
    rcases hphase with rfl | rfl | ⟨toolUses, startedAt, current, rfl⟩
    · apply follows_closing
    · constructor
      · intro provider next _ hnext
        change t.locals.retryDecision = some next at hnext
        rw [hsame, hretry] at hnext
        cases hnext
      · intro _
        apply hsticks
    · use hsame.trans hretry
      intro _
      apply hsticks
  · intro _ _ _
    exact True.intro

/-- A turn starts without a provider it sticks to. -/
theorem steady_beginTurn {input : List ContentPart} :
  (r.leave (beginTurn env options input now)).Steady
  := by
  have hloose : wp (beginTurn env options input now)
      (fun phase t => phase = .looping ∧ t.locals.sticky = none) (fun _ _ => True) r := by
    simp only [beginTurn, openTurn, newMessage, wp_bind, wp_drawId, wp_modify, wp_pure, wp_update,
      wp_get]
    apply (emit_steers _).mono
    · intro _ s hs
      rw [wp_bind]
      apply (Within.forM fun task _ => emit_steers (.taskStarted task)).mono
      · intro _ t ht
        rw [wp_bind, wp_append, wp_bind]
        apply (emit_steers _).mono
        · intro _ u hu
          use rfl
          exact hu.1.trans (ht.1.trans hs.1)
        · intro _ _ _
          exact True.intro
      · intro _ _ _
        exact True.intro
    · intro _ _ _
      exact True.intro
  apply leave_of_wp
  apply wp_mono hloose
  · rintro _ t ⟨rfl, hstick⟩ provider _ hprov
    cases hstick.symm.trans hprov
  · intro _ _ _
    exact True.intro

/-- One step of the runner keeps it steady, and in the turn it sticks to the providers it stuck
to. -/
theorem Runner.Steady.step {a : Action} {t : Runner} (h : r.Steady)
    (hstep : step env options r a = some t) :
  t.Steady ∧ (a.starts = false → t.phase.live → r.phase.live ∧
    ∀ provider, r.locals.sticky = some provider → t.locals.sticky = some provider)
  := by
  cases move_of_step hstep with
  | run hphase =>
    use steady_beginTurn
    intro hstarts
    cases hstarts
  | interrupt =>
    use h
    intro _ hlive
    use hlive
    intro _ hprov
    apply hprov
  | pass hphase =>
    obtain ⟨hstd, hsticks⟩ := follows_beginPass hphase h
    use hstd
    intro _ hlive
    use by rw [hphase]; rfl
    apply hsticks hlive
  | chunk hphase =>
    obtain ⟨hstd, hsticks⟩ := follows_receive hphase h
    use hstd
    intro _ hlive
    use by rw [hphase]; rfl
    apply hsticks hlive
  | streamEnd hphase =>
    rw [Runner.Steady, hphase] at h
    obtain ⟨hstd, hsticks⟩ := follows_of_steers h.1 endStream_steers
      (endStream_leads.imp fun _ h => h.imp_right fun heq => .inr ⟨_, _, _, heq⟩)
    use hstd
    intro _ hlive
    use by rw [hphase]; rfl
    apply hsticks hlive
  | streamError hphase =>
    constructor
    · apply (follows_of_not_live (r := r) leave_caught_not_live).1
    · intro _ hlive
      cases leave_caught_not_live.symm.trans hlive
  | toolsEnd hphase =>
    rw [Runner.Steady, hphase] at h
    obtain ⟨hstd, hsticks⟩ := follows_of_steers h endTools_steers
      (endTools_returns.imp fun _ h => .inr (.inl h))
    use hstd
    intro _ hlive
    use by rw [hphase]; rfl
    apply hsticks hlive
  | settle _ =>
  constructor
  · apply (follows_of_not_live (r := r) leave_endTurn_not_live).1
  · intro _ hlive
    cases leave_endTurn_not_live.symm.trans hlive

end Loop

/-! ### What is recorded -/

section Recording

variable {env : Externals} {options : RunnerOptions} {now : ℤ} {r t : Runner}
  {given : List Message} {said : Set String}

/-- Ids are drawn, and what is recorded anew is in `said`. -/
structure Says (given : List Message) (said : Set String) (r t : Runner) : Prop where
  drawn : r.drawn ≤ t.drawn
  recorded : ∀ id, t.Recorded given id → r.Recorded given id ∨ id ∈ said

instance (given : List Message) (said : Set String) : IsPreorder Runner (Says given said) where
  refl _ := ⟨Nat.le_refl _, fun _ h => .inl h⟩
  trans _ _ _ h h' := by
    use Nat.le_trans h.drawn h'.drawn
    intro id hid
    rcases h'.recorded id hid with hid | hid
    · apply h.recorded id hid
    · right
      apply hid

/-- The runner where its events and conversation are the same. -/
theorem Says.of_same (hdrawn : r.drawn ≤ t.drawn) (hevents : t.events = r.events)
    (hmsgs : t.state.messages = r.state.messages) :
  Says given said r t
  := by
  use hdrawn
  intro id hid
  left
  rw [Runner.Recorded, hevents, hmsgs] at hid
  apply hid

/-- An event records the message it appends. -/
theorem Says.record {payload : Payload}
    (h : ∀ id role content, payload = .messageAppended id role content → id ∈ said) :
  Says given said r (r.record env now payload)
  := by
  use le_succ _
  rintro id (hmsg | ⟨e, he, role, content, heq⟩)
  · left
    left
    apply hmsg
  rcases mem_append.mp he with he | he
  · left
    right
    use e, he, role, content
  · right
    rw [mem_singleton.mp he] at heq
    apply h id role content heq

/-- A neutral event appends no message. -/
theorem says_ignores (env : Externals) (given : List Message) (said : Set String) :
  Ignores env (Says given said)
  where
  draw _ := .of_same (Nat.le_succ _) rfl rfl
  record _ _ _ _ hneutral := by
    apply Says.record
    rintro id role content rfl
    cases hneutral
  locals _ _ _ := .of_same (le_refl _) rfl rfl
  prompt _ _ := .of_same (le_refl _) rfl rfl
  signal _ := .of_same (le_refl _) rfl rfl

theorem emit_speaks {payload : Payload}
    (h : ∀ id role content, payload = .messageAppended id role content → id ∈ said) :
  Within (Says given said) (emit env now payload)
  := by
  intro r
  rw [wp_emit]
  split
  · apply Says.record h
  · apply refl_of (Says given said)

theorem update_speaks {recipe : SessionState → SessionState}
    (h : ∀ s, (recipe s).messages = s.messages) :
  Within (Says given said) (update recipe)
  := by
  intro r
  rw [wp_update]
  exact .of_same (le_refl _) rfl (h _)

/-- The conversation becomes one of the messages the run was given. -/
theorem replace_speaks {recipe : SessionState → SessionState}
    (h : ∀ s, ∀ m ∈ (recipe s).messages, m ∈ given) :
  Within (Says given said) (update recipe)
  := by
  intro r
  use le_refl _
  rintro id (⟨m, hm, hgiven, _⟩ | hevent)
  · apply absurd (h _ m hm) hgiven
  · left
    right
    apply hevent

/-- A message joins the conversation. -/
theorem append_speaks {m : Message} (h : m.id ∈ said) :
  Within (Says given said) (append m)
  := by
  intro r
  use le_refl _
  rintro id (⟨m', hm, hgiven, rfl⟩ | hevent)
  · rcases mem_append.mp hm with hm | hm
    · left
      left
      use m', hm, hgiven
    · right
      rw [mem_singleton.mp hm]
      apply h
  · left
    right
    apply hevent

/-- A message that joins the conversation is reported. -/
theorem appended_speaks {m : Message} (h : m.id ∈ said) :
  Within (Says given said) (emit env now (appendedPayload m))
  := by
  apply emit_speaks
  rintro id role content heq
  obtain ⟨rfl, _, _⟩ := Payload.messageAppended.inj heq
  apply h

theorem applyCompaction_speaks {compaction : Except String Compaction}
    (h : ∀ c, compaction = .ok c → ∀ m ∈ c.messages, m ∈ given) :
  Within (Says given said) (applyCompaction env now compaction)
  := by
  apply Within.bind Within.get
  intro s
  apply Within.bind (update_speaks (by intro _; rfl))
  intro _
  cases compaction with
  | error e => apply Within.throw
  | ok snapshot =>
  rw [Effect.ofExcept, pure_bind]
  apply Within.bind (replace_speaks fun _ m hm => h snapshot rfl m hm)
  intro _
  apply (says_ignores env given said).emit_within rfl

theorem setLocals_speaks (f : Locals → Locals) :
  Within (Says given said) (setLocals f)
  := fun _ => .of_same (Nat.le_refl _) rfl rfl

theorem spend_speaks (usage : Usage) :
  Within (Says given said) (spend usage)
  := by
  apply Within.bind (setLocals_speaks _)
  intro _
  apply update_speaks
  intro _
  rfl

variable {current : InProgress}

/-- At the end of its stream a message is recorded. -/
theorem endStream_speaks {onSuccess : Except String Unit} {messageId : String}
    {decision : RouterDecision} :
  Within (Says given {messageId}) (endStream env now onSuccess messageId decision current)
  := by
  apply Within.bind Within.get
  intro s
  split
  · apply Within.pure
  apply Within.bind (Within.ofExcept onSuccess)
  intro _
  apply Within.bind (append_speaks (Set.mem_singleton _))
  intro _
  apply Within.bind (Within.forM fun usage _ => spend_speaks usage)
  intro _
  apply Within.bind (setLocals_speaks _)
  intro _
  apply Within.bind ((says_ignores env given _).emit_within rfl)
  intro _
  apply Within.bind (appended_speaks (Set.mem_singleton _))
  intro _
  apply (says_ignores env given _).startTools_within

theorem endTurn_speaks :
  Within (Says given said) (endTurn env options now)
  := by
  apply Within.bind Within.get
  intro s
  apply Within.bind (update_speaks (by intro _; rfl))
  intro _
  apply Within.bind
  · apply emit_speaks
    intro id role content heq
    rw [settledPayload] at heq
    split at heq
    all_goals cases heq
  intro _
  apply Within.bind
  · apply Within.forM
    intro task _
    apply emit_speaks
    intro id role content heq
    rw [taskPayload] at heq
    split at heq
    all_goals cases heq
  intro _
  apply Within.pure

/-- What is recorded anew has ids drawn since. -/
def Draws (env : Externals) (given : List Message) (r t : Runner) : Prop :=
  r.drawn ≤ t.drawn ∧ ∀ id, t.Recorded given id →
    r.Recorded given id ∨ ∃ n, r.drawn ≤ n ∧ n < t.drawn ∧ id = env.uuidv7 n

instance (env : Externals) (given : List Message) : IsPreorder Runner (Draws env given) where
  refl _ := ⟨Nat.le_refl _, fun _ h => .inl h⟩
  trans _ _ _ h h' := by
    use Nat.le_trans h.1 h'.1
    intro id hid
    rcases h'.2 id hid with hid | ⟨n, hn, hn', rfl⟩
    · rcases h.2 id hid with hid | ⟨n, hn, hn', rfl⟩
      · left
        apply hid
      · right
        use n, hn, Nat.lt_of_lt_of_le hn' h'.1
    · right
      use n, Nat.le_trans h.1 hn, hn'

/-- A message with an id that was drawn is recorded. -/
theorem Draws.says {s : Runner} {n : ℕ} (h : Draws env given r s)
    (hspk : Says given {env.uuidv7 n} s t) (hle : r.drawn ≤ n) (hlt : n < s.drawn) :
  Draws env given r t
  := by
  use le_trans h.1 hspk.drawn
  intro id hid
  rcases hspk.recorded id hid with hid | rfl
  · rcases h.2 id hid with hid | ⟨m, hm, hm', rfl⟩
    · left
      apply hid
    · right
      use m, hm, lt_of_lt_of_le hm' hspk.drawn
  · right
    use n, hle, lt_of_lt_of_le hlt hspk.drawn

/-- Where nothing is recorded ids may be drawn. -/
theorem Draws.of_same (hdrawn : r.drawn ≤ t.drawn) (hevents : t.events = r.events)
    (hmsgs : t.state.messages = r.state.messages) :
  Draws env given r t
  := by
  use hdrawn
  intro id hid
  left
  rw [Runner.Recorded, hevents, hmsgs] at hid
  apply hid

/-- The message of the user is recorded under the id drawn for it. -/
theorem beginTurn_draws {input : List ContentPart} :
  Within (Draws env given) (beginTurn env options input now)
  := by
  intro r
  have hopen : wp (openTurn env input now)
      (fun user s => user.id = env.uuidv7 (r.drawn + 1) ∧ r.drawn + 1 < s.drawn ∧
        Draws env given r s) (fun _ t => Draws env given r t) r :=
    ⟨rfl, lt_succ_self _, .of_same (le_add_right _ 2) rfl rfl⟩
  rw [beginTurn, wp_bind]
  apply wp_mono hopen
  · rintro user s ⟨hid, hlt, hs⟩
    rw [wp_bind, wp_get]
    apply Within.mono (R := Says given {env.uuidv7 (r.drawn + 1)})
    · apply Within.bind (emit_speaks (by rintro _ _ _ ⟨⟩))
      intro _
      apply Within.bind (Within.forM fun task _ => emit_speaks (by simp))
      intro _
      apply Within.bind (append_speaks hid)
      intro _
      apply Within.bind (appended_speaks hid)
      intro _
      apply Within.pure
    all_goals
      intro _ t ht
      apply hs.says ht (le_succ _) hlt
  · intro _ _ h
    apply h

/-- The messages that answer tools are recorded under the ids drawn for them. -/
theorem endTools_draws {outcome : String → Except String Settled} {toolUses : List ToolUse}
    {startedAt : ℤ} :
  Within (Draws env given) (endTools env now outcome toolUses startedAt current)
  := by
  apply Within.bind (Within.ofExcept _)
  intro results
  apply Within.bind
  · apply Within.forM
    intro result _ s
    have hdrawn : Draws env given s { s with drawn := s.drawn + 1 } := .of_same (le_succ _) rfl rfl
    rw [appendResult, wp_bind]
    apply @Within.mono _ _ _ (Says given {env.uuidv7 s.drawn}) _ _ _ { s with drawn := s.drawn + 1 }
    · apply Within.bind (append_speaks (Set.mem_singleton _))
      intro _
      apply Within.bind (emit_speaks (by rintro _ _ _ ⟨⟩))
      intro _
      apply appended_speaks (Set.mem_singleton _)
    all_goals
      intro _ t ht
      apply hdrawn.says ht (le_refl _) (lt_succ_self _)
  · intro _
    apply Within.pure

/-! ### Steps -/

/-- What a step records, and what it makes of the stream that is being read: nothing is recorded;
nothing is recorded and a stream starts, with an id that is drawn; a stream ends and its message is
recorded; or messages with ids that are drawn are recorded, and no stream is read. -/
inductive Advance (env : Externals) (given : List Message) (r t : Runner) : Prop
  | stay (hspk : Says given ∅ r t)
      (hphase : ∀ id, t.phase.message = some id → r.phase.message = some id)
  | start (n : ℕ) (hspk : Says given ∅ r t) (hle : r.drawn ≤ n) (hlt : n < t.drawn)
      (hphase : t.phase.message = some (env.uuidv7 n))
  | finish (id : String) (hid : r.phase.message = some id) (hspk : Says given {id} r t)
      (hphase : t.phase.message = none)
  | speak (hdraws : Draws env given r t) (hphase : t.phase.message = none)

/-- What is said does not depend on where the runner waits. -/
theorem Says.wait (h : Says given said r t) (phase : Phase) :
  Says given said r { t with phase := phase }
  := ⟨h.drawn, h.recorded⟩

theorem Draws.wait (h : Draws env given r t) (phase : Phase) :
  Draws env given r { t with phase := phase }
  := h

/-- What follows the head of the loop. -/
theorem advance_beginPass {picked : Except String RouterDecision}
    {composed : Except String String} {compaction : Option (Except String Compaction)}
    (h : r.Steady) (hphase : r.phase = .looping)
    (hgiven : ∀ c, compaction = some (.ok c) → ∀ m ∈ c.messages, m ∈ given) :
  Advance env given r
    (r.attempt env now (beginPass env options now picked composed compaction))
  := by
  rw [Runner.Steady, hphase] at h
  have hspk : Within (Says given ∅) (beginPass env options now picked composed compaction) := by
    apply (says_ignores env given ∅).beginPass_within
    rintro c hc
    apply applyCompaction_speaks
    rintro snapshot rfl
    apply hgiven snapshot hc
  have hquiet : Says given ∅ r
      (r.attempt env now (beginPass env options now picked composed compaction)) :=
    attempt_within (says_ignores env given ∅) (fun _ _ phase h => h.wait phase) hspk
  have hleads : (r.attempt env now
        (beginPass env options now picked composed compaction)).phase.message = none ∨
      ∃ n, (r.attempt env now
          (beginPass env options now picked composed compaction)).phase.message =
            some (env.uuidv7 n) ∧ r.drawn ≤ n ∧
        n < (r.attempt env now
          (beginPass env options now picked composed compaction)).drawn := by
    apply attempt_of_ok (I := fun t => t.phase.message = none ∨
      ∃ n, t.phase.message = some (env.uuidv7 n) ∧ r.drawn ≤ n ∧ n < t.drawn)
    · intro _
      left
      rfl
    apply wp_mono (beginPass_wp h)
    · rintro _ t (rfl | ⟨n, decision, rfl, hle, hlt, _⟩)
      · left
        rfl
      · right
        use n, rfl, hle
    · intro _ _ _
      exact True.intro
  rcases hleads with hnone | ⟨n, hmsg, hle, hlt⟩
  · apply Advance.stay hquiet
    intro id hid
    cases hnone.symm.trans hid
  · apply Advance.start n hquiet hle hlt hmsg

/-- Where the loop does not go on no stream is read. -/
theorem Phase.message_of_not_live {phase : Phase} (h : phase.live = false) :
  phase.message = none
  := by
  cases phase with
  | streaming _ _ _ => cases h
  | _ => rfl

/-- While a stream is read no tool is executed. -/
theorem Phase.not_executes_of_message {phase : Phase} {id : String} (h : phase.message = some id) :
  phase.executes = false
  := by
  cases phase with
  | executing _ _ _ => cases h
  | _ => rfl

theorem Says.draws (h : Says given ∅ r t) :
  Draws env given r t
  := by
  use h.drawn
  intro id hid
  left
  apply (h.recorded id hid).resolve_right
  exact Set.notMem_empty id

theorem draws_ignores (env : Externals) (given : List Message) :
  Ignores env (Draws env given)
  where
  draw r := ((says_ignores env given ∅).draw r).draws
  record r now payload hconf hneutral :=
    ((says_ignores env given ∅).record r now payload hconf hneutral).draws
  locals r f hf := ((says_ignores env given ∅).locals r f hf).draws
  prompt r system := ((says_ignores env given ∅).prompt r system).draws
  signal r := ((says_ignores env given ∅).signal r).draws

/-- Where a turn starts, a stream ends or tools have answered, no stream is read. -/
theorem leave_beginTurn_message {input : List ContentPart} :
  (r.leave (beginTurn env options input now)).phase.message = none
  := by
  rcases leave_returns beginTurn_returns with heq | heq
  all_goals
    rw [heq]
    rfl

theorem attempt_endStream_message {onSuccess : Except String Unit} {messageId : String}
    {decision : RouterDecision} :
  (r.attempt env now (endStream env now onSuccess messageId decision current)).phase.message = none
  := by
  rcases attempt_returns endStream_leads with (heq | heq) | heq
  all_goals
    rw [heq]
    rfl

theorem attempt_endTools_message {outcome : String → Except String Settled}
    {toolUses : List ToolUse} {startedAt : ℤ} :
  (r.attempt env now (endTools env now outcome toolUses startedAt current)).phase.message = none
  := by
  rcases attempt_returns endTools_returns with heq | heq
  all_goals
    rw [heq]
    rfl

/-- What a step makes of the stream that is being read: it is over, or read on, or one starts, with
nothing in it. -/
theorem reads_of_step {a : Action} (hstep : step env options r a = some t) :
  t.phase.message = none ∨ (t.phase.message = r.phase.message ∧
      (a = .interrupt ∨ ∃ chunk answer now, a = .chunk chunk answer now)) ∨
    (r.phase = .looping ∧ ∃ n decision, t.phase = .streaming (env.uuidv7 n) decision .empty)
  := by
  cases move_of_step hstep with
  | run _ =>
    left
    apply leave_beginTurn_message
  | interrupt =>
    right
    left
    use rfl
    left
    rfl
  | pass hphase =>
    rcases attempt_returns beginPass_returns with (heq | hstart) | heq
    · left
      rw [heq]
      rfl
    · right
      right
      exact ⟨hphase, hstart⟩
    · left
      rw [heq]
      rfl
  | chunk hphase =>
    rcases attempt_returns receive_returns with (heq | heq | heq) | heq
    · left
      rw [heq]
      rfl
    · left
      rw [heq]
      rfl
    · right
      left
      rw [heq, hphase]
      use rfl
      right
      exact ⟨_, _, _, rfl⟩
    · left
      rw [heq]
      rfl
  | streamEnd _ =>
    left
    apply attempt_endStream_message
  | streamError _ =>
    left
    apply Phase.message_of_not_live leave_caught_not_live
  | toolsEnd _ =>
    left
    apply attempt_endTools_message
  | settle _ =>
    left
    apply Phase.message_of_not_live leave_endTurn_not_live

variable (given) in
/-- Every step advances. -/
theorem advance_of_step {a : Action} (h : r.Steady) (hstep : step env options r a = some t)
    (hgiven : ∀ m ∈ a.snapshot, m ∈ given) :
  Advance env given r t
  := by
  have hignores := says_ignores env given ∅
  have hwait : ∀ (s t : Runner) phase, Says given ∅ s t →
      Says given ∅ s { t with phase := phase } :=
    fun _ _ phase h => h.wait phase
  cases move_of_step hstep with
  | run _ =>
    apply Advance.speak (leave_within (fun _ _ phase h => h.wait phase) beginTurn_draws)
    apply leave_beginTurn_message
  | interrupt =>
    have hspk : Says given ∅ r r.interrupt := .of_same (le_refl _) rfl rfl
    apply Advance.stay hspk
    intro _ hid
    apply hid
  | pass hphase =>
    apply advance_beginPass h hphase
    rintro c rfl
    apply hgiven
  | chunk hphase =>
    apply Advance.stay (attempt_within hignores hwait hignores.receive_within)
    intro id hid
    rcases reads_of_step hstep with hnone | ⟨hsame, _⟩ | ⟨hloop, _⟩
    · cases hnone.symm.trans hid
    · apply hsame.symm.trans hid
    · cases hphase.symm.trans hloop
  | streamEnd hphase =>
    apply Advance.finish _ (by rw [hphase]; rfl)
    · apply attempt_within (says_ignores env given _) (fun _ _ phase h => h.wait phase)
      apply endStream_speaks
    · apply attempt_endStream_message
  | streamError _ =>
    apply Advance.stay (leave_within hwait (hignores.caught_within _))
    intro id hid
    cases (Phase.message_of_not_live leave_caught_not_live).symm.trans hid
  | toolsEnd _ =>
    apply Advance.speak
    · apply attempt_within (draws_ignores env given) (fun _ _ phase h => h.wait phase)
      apply endTools_draws
    · apply attempt_endTools_message
  | settle _ =>
    apply Advance.stay (leave_within hwait endTurn_speaks)
    intro id hid
    cases (Phase.message_of_not_live leave_endTurn_not_live).symm.trans hid

end Recording

/-! ### Interrupted messages -/

section Interrupted

variable {env : Externals} {options : RunnerOptions} {r t : Runner} {given : List Message} {n : ℕ}

/-- The stream with the number is over. -/
def Past (env : Externals) (n : ℕ) (r : Runner) : Prop :=
  n < r.drawn ∧ r.phase.message ≠ some (env.uuidv7 n)

/-- The stream with the number has not started or is being read, and its message is not
recorded. -/
def Ahead (env : Externals) (given : List Message) (n : ℕ) (r : Runner) : Prop :=
  ¬ r.Recorded given (env.uuidv7 n) ∧ (n < r.drawn ↔ r.phase.message = some (env.uuidv7 n))

theorem Advance.drawn (h : Advance env given r t) :
  r.drawn ≤ t.drawn
  := by
  cases h with
  | stay hspk _ | start _ hspk _ _ _ | finish _ _ hspk _ => apply hspk.drawn
  | speak hdraws _ => apply hdraws.1

/-- A stream that is over does not start again. -/
theorem Advance.past (hinj : Function.Injective env.uuidv7) (h : Advance env given r t)
    (hpast : Past env n r) :
  Past env n t
  := by
  use lt_of_lt_of_le hpast.1 h.drawn
  cases h with
  | stay hspk hphase =>
    intro hmsg
    apply hpast.2 (hphase _ hmsg)
  | start m hspk hle hlt hphase =>
    intro hmsg
    obtain rfl := hinj (Option.some.inj (hphase.symm.trans hmsg))
    apply lt_irrefl m (lt_of_lt_of_le hpast.1 hle)
  | finish id hid hspk hphase | speak hdraws hphase =>
    rw [hphase]
    nofun

/-- Where its stream is over, a message that is not recorded never is. -/
theorem Advance.unrecorded (hinj : Function.Injective env.uuidv7) (h : Advance env given r t)
    (hpast : Past env n r) (hr : ¬ r.Recorded given (env.uuidv7 n)) :
  ¬ t.Recorded given (env.uuidv7 n)
  := by
  intro ht
  cases h with
  | stay hspk _ | start m hspk _ _ _ =>
    rcases hspk.recorded _ ht with h | h; exacts [hr h, h]
  | finish id hid hspk _ =>
    rcases hspk.recorded _ ht with h | rfl
    · apply hr h
    · apply hpast.2 hid
  | speak hdraws _ =>
  rcases hdraws.2 _ ht with h | ⟨m, hle, _, heq⟩
  · apply hr h
  · obtain rfl := hinj heq
    apply lt_irrefl n (lt_of_lt_of_le hpast.1 hle)

/-- Up to its end, a stream stays ahead. -/
theorem Advance.ahead (hinj : Function.Injective env.uuidv7) (h : Advance env given r t)
    (hr : Ahead env given n r) :
  Past env n t ∨ Ahead env given n t
  := by
  by_cases hpast : Past env n t
  · left
    apply hpast
  right
  have hread : n < t.drawn → t.phase.message = some (env.uuidv7 n) := by
    intro hlt
    by_contra hne
    apply hpast ⟨hlt, hne⟩
  cases h with
  | stay hspk hphase =>
    constructor
    · intro ht
      rcases hspk.recorded _ ht with h | h
      · apply hr.1 h
      · apply h
    · use hread
      intro hmsg
      apply lt_of_lt_of_le (hr.2.mpr (hphase _ hmsg)) hspk.drawn
  | start m hspk hle hlt hphase =>
    constructor
    · intro ht
      rcases hspk.recorded _ ht with h | h
      · apply hr.1 h
      · apply h
    use hread
    intro hmsg
    obtain rfl := hinj (Option.some.inj (hphase.symm.trans hmsg))
    apply hlt
  | finish id hid hspk hphase =>
    have hnot : ¬ n < t.drawn := by
      intro hlt
      cases hphase.symm.trans (hread hlt)
    constructor
    · intro ht
      rcases hspk.recorded _ ht with h | rfl
      · apply hr.1 h
      · apply hnot (lt_of_lt_of_le (hr.2.mpr hid) hspk.drawn)
    · use hread
      intro hmsg
      cases hphase.symm.trans hmsg
  | speak hdraws hphase =>
  have hnot : ¬ n < t.drawn := by
    intro hlt
    cases hphase.symm.trans (hread hlt)
  constructor
  · intro ht
    rcases hdraws.2 _ ht with h | ⟨m, _, hlt, heq⟩
    · apply hr.1 h
    · obtain rfl := hinj heq
      apply hnot hlt
  · use hread
    intro hmsg
    cases hphase.symm.trans hmsg

/-- A step in which a stream is read on, or which is a chunk of it, tells of no tool. -/
theorem quiet_of_step {a : Action} {id : String} (hid : r.phase.message = some id)
    (hstep : step env options r a = some t)
    (hread : t.phase.message = some id ∨ ∃ chunk answer now, a = .chunk chunk answer now) :
  Quiet r t
  := by
  have hchunk : (∃ chunk answer now, a = .chunk chunk answer now) → Quiet r t := by
    rintro ⟨chunk, answer, now, rfl⟩
    cases move_of_step hstep with
    | chunk _ => apply attempt_receive_quiet
  rcases hread with hread | hread
  · rcases reads_of_step hstep with hnone | ⟨_, rfl | h⟩ | ⟨hphase, _⟩
    · cases hnone.symm.trans hread
    · cases hstep
      apply Quiet.refl
    · apply hchunk h
    · rw [hphase] at hid
      cases hid
  · apply hchunk hread

variable (given) in
/-- A chunk records nothing. -/
theorem says_of_chunk {chunk : ProviderChunk} {answer : Except String (Option RouterDecision)}
    {now : ℤ} (hstep : step env options r (.chunk chunk answer now) = some t) :
  Says given ∅ r t
  := by
  cases move_of_step hstep with
  | chunk hphase =>
    apply attempt_within (says_ignores env given ∅) (fun _ _ phase h => h.wait phase)
    apply (says_ignores env given ∅).receive_within

/-- An interruption ends its stream, and no tool is executed. -/
theorem leads_of_interrupted {reason : String} {answer : Except String (Option RouterDecision)}
    {now : ℤ} (hstep : step env options r (.chunk (.messageInterrupted reason) answer now) = some t) :
  t.phase.message = none ∧ t.phase.executes = false
  := by
  cases move_of_step hstep with
  | chunk hphase =>
  apply attempt_of_ok (I := fun t => t.phase.message = none ∧ t.phase.executes = false)
  · intro _
    exact ⟨rfl, rfl⟩
  apply wp_mono receive_wp
  · rintro _ t ⟨_, rfl | ⟨rfl, _⟩ | ⟨_, hchunk, _⟩⟩
    · exact ⟨rfl, rfl⟩
    · exact ⟨rfl, rfl⟩
    · apply absurd rfl (hchunk reason)
  · intro _ _ _
    exact True.intro

/-- A stream starts with nothing in it. -/
theorem empty_of_start {a : Action} {id : String} {decision : RouterDecision}
    {current : InProgress} (hstep : step env options r a = some t)
    (hphase : t.phase = .streaming id decision current) (hother : r.phase.message ≠ some id) :
  current = .empty
  := by
  have hid : t.phase.message = some id := by
    rw [hphase]
    rfl
  rcases reads_of_step hstep with hnone | ⟨hsame, _⟩ | ⟨_, n, decision', hstart⟩
  · cases hnone.symm.trans hid
  · apply absurd (hsame.symm.trans hid) hother
  · apply (Phase.streaming.inj (hphase.symm.trans hstart)).2.2

/-- A message whose stream is read has an id that was drawn. -/
def Read (env : Externals) (r : Runner) : Prop :=
  ∀ id, r.phase.message = some id → ∃ n, id = env.uuidv7 n

theorem Read.step {a : Action} (h : Read env r) (hstd : r.Steady)
    (hstep : step env options r a = some t) :
  Read env t
  := by
  intro id hid
  cases advance_of_step a.snapshot hstd hstep (fun m hm => hm) with
  | stay _ hphase => apply h id (hphase id hid)
  | start n _ _ _ hphase =>
    use n
    apply Option.some.inj (hid.symm.trans hphase)
  | finish _ _ _ hphase | speak _ hphase => cases hphase.symm.trans hid

end Interrupted

/-- Two ways of parting a list in which an element is marked: the second part starts at the element
or before it, or the first part goes past it. -/
theorem parts_of_append_cons {α : Type} {xs ys zs ws : List α} {x : α}
    (h : xs ++ x :: ys = zs ++ ws) :
  (∃ between, xs = zs ++ between ∧ ws = between ++ x :: ys) ∨
    ∃ between, zs = xs ++ x :: between ∧ ys = between ++ ws
  := by
  rcases append_eq_append_iff.mp h with ⟨between, hzs, hrest⟩ | ⟨between, hxs, hws⟩
  · cases between with
    | nil =>
      left
      use [], by simpa using hzs.symm
      simpa using hrest.symm
    | cons y between =>
      obtain ⟨rfl, hys⟩ := List.cons.inj hrest
      right
      use between, hzs, hys
  · left
    use between, hxs, hws

/-! ### Runs -/

section Runs

variable {env : Externals} {options : RunnerOptions} {state : SessionState} {r t : Runner}
  {actions as : List Action} {n : ℕ}

/-- The runner is steady in every run. -/
theorem steady_of_run (hrun : run (step env options) (.new state) as = some r) :
  r.Steady ∧ Read env r
  := by
  have hnew : (Runner.new state).Steady ∧ Read env (Runner.new state) := ⟨True.intro, nofun⟩
  exact run_invariant (I := fun r => r.Steady ∧ Read env r)
    (fun _ _ _ h hstep => ⟨(h.1.step hstep).1, h.2.step h.1 hstep⟩) hnew hrun

/-- Every run adheres to the provider of the first tool use of a turn. -/
theorem adheres (env : Externals) (options : RunnerOptions) (state : SessionState) :
  Adheres env options state
  := by
  intro before after id name answer now r t provider other hpre hrequested hrun hturn hother
  have hstd : r.Steady := (steady_of_run hpre).1
  obtain ⟨s, hs, hafter⟩ := run_cons_eq_some.mp hrun
  have hstart : s.Steady ∧ (s.phase.live → s.locals.sticky = some provider) := by
    use (hstd.step hs).1
    intro hlive
    cases move_of_step hs with
    | chunk hphase =>
      rw [hphase] at hrequested
      cases hrequested
      apply sticks_of_toolUseStart hphase hstd hlive
  have hok : Guarded (step env options) (fun _ a => a.starts = false) s after := by
    rw [guarded_iff]
    intro past a rest _ heq _
    apply hturn
    simp [heq]
  have hend : t.Steady ∧ (t.phase.live → t.locals.sticky = some provider) := by
    apply hok.invariant (I := fun t =>
      t.Steady ∧ (t.phase.live → t.locals.sticky = some provider)) _ hstart hafter
    rintro u a v ⟨hu, hstick⟩ ha hstep
    obtain ⟨hv, hkeeps⟩ := hu.step hstep
    use hv
    intro hlive
    obtain ⟨hlive', hsame⟩ := hkeeps ha hlive
    apply hsame _ (hstick hlive')
  cases hphase : t.phase with
  | streaming messageId decision current =>
    rw [hphase] at hother
    cases hother
    obtain ⟨ht, hstick⟩ := hend
    rw [Runner.Steady, hphase] at ht
    apply ht.2
    apply hstick
    rw [hphase]
    rfl
  | _ => rw [hphase] at hother; cases hother

/-- What the actions of a part of a run bring is given to the run. -/
theorem guarded_given (state : SessionState) (has : ∀ a ∈ as, a ∈ actions) :
  Guarded (step env options) (fun _ a => ∀ m ∈ a.snapshot, m ∈ givenTo state actions) r as
  := by
  rw [guarded_iff]
  intro past a rest _ heq _ m hm
  apply mem_append_right
  apply mem_flatMap.mpr
  use a, has a (by simp [heq])

/-- A stream that is over does not start again. -/
theorem Past.run (hinj : Function.Injective env.uuidv7) (hstd : r.Steady)
    (hpast : Past env n r) (hrun : run (step env options) r as = some t) :
  Past env n t
  := by
  have hend : t.Steady ∧ Past env n t := by
    apply run_invariant (I := fun t => t.Steady ∧ Past env n t) _ ⟨hstd, hpast⟩ hrun
    rintro u a v ⟨hu, hn⟩ hstep
    use (hu.step hstep).1
    apply (advance_of_step a.snapshot hu hstep fun _ hm => hm).past hinj hn
  apply hend.2

/-- Where its stream is over, a message that is not recorded never is. -/
theorem unrecorded_of_run (hinj : Function.Injective env.uuidv7) (has : ∀ a ∈ as, a ∈ actions)
    (hstd : r.Steady) (hpast : Past env n r)
    (hr : ¬ r.Recorded (givenTo state actions) (env.uuidv7 n))
    (hrun : Run.run (step env options) r as = some t) :
  ¬ t.Recorded (givenTo state actions) (env.uuidv7 n)
  := by
  have hend : (t.Steady ∧ Past env n t) ∧ ¬ t.Recorded (givenTo state actions) (env.uuidv7 n) := by
    apply (guarded_given state has).invariant (I := fun t => (t.Steady ∧ Past env n t) ∧
      ¬ t.Recorded (givenTo state actions) (env.uuidv7 n)) _ ⟨⟨hstd, hpast⟩, hr⟩ hrun
    rintro u a v ⟨⟨hu, hn⟩, hrec⟩ ha hstep
    have hadv := advance_of_step _ hu hstep ha
    use ⟨(hu.step hstep).1, hadv.past hinj hn⟩
    apply hadv.unrecorded hinj hn hrec
  apply hend.2

/-- In every run, a stream is over, or its message is not recorded. -/
theorem past_or_ahead (hinj : Function.Injective env.uuidv7) (has : ∀ a ∈ as, a ∈ actions)
    (hrun : Run.run (step env options) (.new state) as = some r) :
  Past env n r ∨ Ahead env (givenTo state actions) n r
  := by
  have hstart : Ahead env (givenTo state actions) n (Runner.new state) := by
    constructor
    · rintro (⟨m, hm, hgiven, _⟩ | ⟨e, he, _⟩)
      · apply hgiven (mem_append_left _ hm)
      · cases he
    constructor
    · intro hlt
      cases hlt
    · intro hnone
      cases hnone
  have hend : r.Steady ∧ (Past env n r ∨ Ahead env (givenTo state actions) n r) := by
    apply (guarded_given state has).invariant (I := fun r => r.Steady ∧
      (Past env n r ∨ Ahead env (givenTo state actions) n r)) _ ⟨True.intro, .inr hstart⟩ hrun
    rintro u a v ⟨hu, hn⟩ ha hstep
    use (hu.step hstep).1
    have hadv := advance_of_step _ hu hstep ha
    rcases hn with hn | hn
    · left
      apply hadv.past hinj hn
    · apply hadv.ahead hinj hn
  apply hend.2

/-- While its stream is read, and up to then, a message is not recorded. -/
theorem ahead_of_run (hinj : Function.Injective env.uuidv7) (has : ∀ a ∈ as, a ∈ actions)
    {bs : List Action} (hr : Run.run (step env options) (.new state) as = some r)
    (ht : Run.run (step env options) r bs = some t) (hmsg : t.phase.message = some (env.uuidv7 n)) :
  Ahead env (givenTo state actions) n r
  := by
  apply (past_or_ahead hinj has hr).resolve_left
  intro hpast
  apply (hpast.run hinj (steady_of_run hr).1 ht).2 hmsg

/-- Every run drops the messages whose streams are interrupted. -/
theorem drops (hinj : Function.Injective env.uuidv7) (options : RunnerOptions)
    (state : SessionState) :
  Drops env options state
  := by
  intro before after reason answer now r t messageId hpre hmsg hrun
  obtain ⟨s, hs, hafter⟩ := run_cons_eq_some.mp hrun
  obtain ⟨n, rfl⟩ := (steady_of_run hpre).2 messageId hmsg
  generalize hactions : before ++ .chunk (.messageInterrupted reason) answer now :: after = actions
  have hleft : ∀ a ∈ before, a ∈ actions := by
    intro a ha
    rw [← hactions]
    apply mem_append_left _ ha
  have hright : ∀ a ∈ after, a ∈ actions := by
    intro a ha
    rw [← hactions]
    apply mem_append_right _ (mem_cons_of_mem _ ha)
  -- The interruption ends the stream, before its message is recorded.
  have hr : Ahead env (givenTo state actions) n r := by
    have hnone : Run.run (step env options) r [] = some r := rfl
    apply ahead_of_run hinj hleft hpre hnone hmsg
  have hspk := says_of_chunk (givenTo state actions) hs
  have hpast : Past env n s := by
    use lt_of_lt_of_le (hr.2.mpr hmsg) hspk.drawn
    rw [(leads_of_interrupted hs).1]
    nofun
  have hunrecorded : ¬ s.Recorded (givenTo state actions) (env.uuidv7 n) := by
    intro hrec
    rcases hspk.recorded _ hrec with h | h
    · apply hr.1 h
    · apply h
  have hstd : s.Steady := ((steady_of_run hpre).1.step hs).1
  constructor
  · intro past a rest u v heq hu hreads hstep
    rcases parts_of_append_cons (hactions.trans heq) with
      ⟨between, hbetween, hrest⟩ | ⟨between, hbetween, _⟩
    · rw [hbetween, run_append, hu] at hpre
      cases between with
      | nil =>
        obtain ⟨rfl, _⟩ := List.cons.inj hrest
        cases hpre
        use (leads_of_interrupted hstep).2
        apply quiet_of_step hreads hstep
        right
        exact ⟨_, _, _, rfl⟩
      | cons b between =>
      obtain ⟨rfl, _⟩ := List.cons.inj hrest
      have hpart : ∀ c ∈ past ++ [a], c ∈ actions := by
        intro c hc
        apply hleft
        rw [hbetween, append_cons]
        apply mem_append_left _ hc
      have hu' : Ahead env (givenTo state actions) n u :=
        ahead_of_run hinj (fun c hc => hpart c (mem_append_left _ hc)) hu hpre hmsg
      obtain ⟨w, hw, hread⟩ := run_cons_eq_some.mp hpre
      obtain rfl := Option.some.inj (hstep.symm.trans hw)
      have hv : Ahead env (givenTo state actions) n v := by
        apply ahead_of_run hinj hpart _ hread hmsg
        rw [run_append, hu]
        exact run_cons_eq_some.mpr ⟨v, hstep, rfl⟩
      have hadv := advance_of_step a.snapshot (steady_of_run hu).1 hstep
        fun _ hm => hm
      have hreads' : v.phase.message = some (env.uuidv7 n) :=
        hv.2.mp (lt_of_lt_of_le (hu'.2.mpr hreads) hadv.drawn)
      use Phase.not_executes_of_message hreads'
      apply quiet_of_step hreads hstep
      left
      apply hreads'
    rw [hbetween, run_append, hpre] at hu
    obtain ⟨w, hw, hrun'⟩ := run_cons_eq_some.mp hu
    obtain rfl := Option.some.inj (hs.symm.trans hw)
    apply absurd hreads (hpast.run hinj hstd hrun').2
  · intro past rest u heq hu
    rcases parts_of_append_cons (hactions.trans heq) with
      ⟨between, hbetween, _⟩ | ⟨between, hbetween, hrest⟩
    · rw [hbetween, run_append, hu] at hpre
      apply (ahead_of_run hinj _ hu hpre hmsg).1
      intro a ha
      apply hleft
      rw [hbetween]
      apply mem_append_left _ ha
    rw [hbetween, run_append, hpre] at hu
    obtain ⟨w, hw, hrun'⟩ := run_cons_eq_some.mp hu
    obtain rfl := Option.some.inj (hs.symm.trans hw)
    apply unrecorded_of_run hinj _ hstd hpast hunrecorded hrun'
    intro a ha
    apply hright
    rw [hrest]
    apply mem_append_left _ ha
  · intro _ _ _ _ _ _ _ _ _ _ hstep hphase hother
    apply empty_of_start hstep hphase hother

/-- Whatever the router answers, a turn adheres to the provider of its first tool use, and what a
stream has brought when it is interrupted is dropped. -/
theorem adheres_and_drops (hinj : Function.Injective env.uuidv7) (options : RunnerOptions)
    (state : SessionState) :
  Adheres env options state ∧ Drops env options state
  := ⟨adheres env options state, drops hinj options state⟩

end Runs

/-- Another decision for examples. -/
def otherDecision : RouterDecision where
  provider := { handle := 1, name := "openai" }
  model := "model"
  reason := "default"

/-- In a turn that sticks to a provider, the router picks another. -/
theorem adheres_and_drops_otherDecision :
  Adheres sampleExternals .default sampleSession ∧ Drops sampleExternals .default sampleSession ∧
    (run (step sampleExternals .default) (.new sampleSession)
      (sampleTurn (.ok sampleOutcome) ++ [.pass (.ok otherDecision) (.ok "") none 8])).bind
        (fun r => r.phase.requested) = some sampleDecision.provider
  := by
  obtain ⟨hadheres, hdrops⟩ := adheres_and_drops sampleExternals_injective .default sampleSession
  use hadheres, hdrops
  decide +kernel

end Core
