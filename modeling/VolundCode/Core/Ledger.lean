import VolundCode.Core.Answered
import VolundCode.Core.Replay

/-!
# What is logged

The events of a run have ids of their own and conform, and of what the session used they report
all but the usage of the turns that end without a `turn.completed` event (`Balanced`). So the
usage of a session after its log is replayed is the live one exactly if these turns used nothing
(`usage_replay_eq_live_iff`); a turn that is interrupted after a model call has used something
(`usage_replay_ne_live`).
-/

namespace Core

open ProviderKit Effect Run List Runner

/-! ### The events of the runner -/

/-- Ids drawn one after the other, fewer than `drawn` of them. -/
def Drawn (env : Externals) (drawn : ℕ) (ids : List String) : Prop :=
  ∃ ns : List ℕ, ids = ns.map env.uuidv7 ∧ ns.Pairwise (· < ·) ∧ ∀ n ∈ ns, n < drawn

namespace Drawn

variable {env : Externals} {drawn : ℕ} {ids : List String}

theorem nil :
  Drawn env drawn []
  := by
  use [], rfl, List.Pairwise.nil
  simp

theorem mono (h : Drawn env drawn ids) {more : ℕ} (hle : drawn ≤ more) :
  Drawn env more ids
  := by
  obtain ⟨ns, heq, hpair, hlt⟩ := h
  use ns, heq, hpair
  intro n hn
  apply lt_of_lt_of_le (hlt n hn) hle

theorem append (h : Drawn env drawn ids) :
  Drawn env (drawn + 1) (ids ++ [env.uuidv7 drawn])
  := by
  obtain ⟨ns, rfl, hpair, hlt⟩ := h
  use ns ++ [drawn], by simp
  constructor
  · rw [pairwise_append]
    use hpair, pairwise_singleton _ _
    intro n hn m hm
    rw [mem_singleton.mp hm]
    apply hlt n hn
  intro n hn
  rcases mem_append.mp hn with hn | hn
  · apply Nat.lt_succ_of_lt (hlt n hn)
  · rw [mem_singleton.mp hn]
    apply Nat.lt_succ_self

theorem nodup (h : Drawn env drawn ids) (hinj : Function.Injective env.uuidv7) :
  ids.Nodup
  := by
  obtain ⟨ns, rfl, hpair, _⟩ := h
  apply Nodup.map hinj
  apply hpair.imp
  intro a b hab
  apply Nat.ne_of_lt hab

theorem not_mem (h : Drawn env drawn ids) (hinj : Function.Injective env.uuidv7) :
  env.uuidv7 drawn ∉ ids
  := by
  obtain ⟨ns, rfl, _, hlt⟩ := h
  intro hmem
  obtain ⟨n, hn, heq⟩ := mem_map.mp hmem
  rw [hinj heq] at hn
  apply Nat.lt_irrefl _ (hlt _ hn)

end Drawn

/-- The events of the runner and its turns have ids drawn for them, and the events are its own
and conform. -/
structure Logged (env : Externals) (r : Runner) : Prop where
  ids : Drawn env r.drawn (r.events.map CoreEvent.id)
  turns : Drawn env r.drawn (r.state.turns.map Turn.id)
  own : ∀ e ∈ r.events, e.forwarded = false ∧ e.payload.conforms

/-- What was logged stays logged. -/
def KeepsLog (env : Externals) (r t : Runner) : Prop :=
  Logged env r → Logged env t

instance (env : Externals) : IsPreorder Runner (KeepsLog env) where
  refl _ h := h
  trans _ _ _ h h' hr := h' (h hr)

theorem Logged.record {env : Externals} {r : Runner} (h : Logged env r) {now : ℤ}
    {payload : Payload} (hconf : payload.conforms) :
  Logged env (r.record env now payload)
  := by
  constructor
  · rw [Runner.record, map_append]
    apply h.ids.append
  · apply h.turns.mono (Nat.le_succ _)
  intro e he
  rcases mem_append.mp he with he | he
  · apply h.own e he
  · rw [mem_singleton.mp he]
    use rfl, hconf

theorem keepsLog_ignores (env : Externals) :
  Ignores env (KeepsLog env)
  where
  draw _ h := ⟨h.ids.mono (Nat.le_succ _), h.turns.mono (Nat.le_succ _), h.own⟩
  record _ _ _ hconf _ h := h.record hconf
  locals _ _ _ h := ⟨h.ids, h.turns, h.own⟩
  prompt _ _ h := ⟨h.ids, h.turns, h.own⟩
  signal _ h := ⟨h.ids, h.turns, h.own⟩

section Logging

variable {env : Externals} {options : RunnerOptions} {now : ℤ} {r : Runner}

theorem emit_keepsLog (payload : Payload) :
  Within (KeepsLog env) (emit env now payload)
  := by
  intro r
  rw [wp_emit]
  split
  · rename_i hconf
    intro h
    apply h.record hconf
  · apply refl_of (KeepsLog env)

/-- A change of the state that keeps the ids of the turns. -/
theorem update_keepsLog {recipe : SessionState → SessionState}
    (h : ∀ s, (recipe s).turns.map Turn.id = s.turns.map Turn.id) :
  Within (KeepsLog env) (update recipe)
  := by
  intro r hr
  constructor
  · apply hr.ids
  · change Drawn env r.drawn ((recipe r.state).turns.map Turn.id)
    rw [h]
    apply hr.turns
  · apply hr.own

theorem setLocals_keepsLog (f : Locals → Locals) :
  Within (KeepsLog env) (setLocals f)
  := fun _ h => ⟨h.ids, h.turns, h.own⟩

theorem applyCompaction_keepsLog (compaction : Except String Compaction) :
  Within (KeepsLog env) (applyCompaction env now compaction)
  := by
  apply Within.bind Within.get
  intro s
  apply Within.bind (update_keepsLog fun s => map_id_setStatus _ _ _)
  intro _
  apply Within.bind (Within.ofExcept compaction)
  intro snapshot
  apply Within.bind (update_keepsLog fun s => map_id_setStatus _ _ _)
  intro _
  apply emit_keepsLog

theorem append_keepsLog (m : Message) :
  Within (KeepsLog env) (append m)
  := by
  apply update_keepsLog
  intro s
  rfl

theorem openTurn_keepsLog (input : List ContentPart) :
  Within (KeepsLog env) (openTurn env input now)
  := by
  intro r h
  constructor
  · apply h.ids.mono (Nat.le_add_right _ 2)
  · change Drawn env (r.drawn + 1 + 1) ((r.state.turns ++ [_]).map Turn.id)
    rw [map_append]
    apply h.turns.append.mono (Nat.le_succ _)
  · apply h.own

theorem beginTurn_keepsLog (input : List ContentPart) :
  Within (KeepsLog env) (beginTurn env options input now)
  := by
  apply Within.bind (openTurn_keepsLog input)
  intro user
  apply Within.bind Within.get
  intro r
  apply Within.bind (emit_keepsLog _)
  intro _
  apply Within.bind (Within.forM fun task _ => emit_keepsLog _)
  intro _
  apply Within.bind (append_keepsLog user)
  intro _
  apply Within.bind (emit_keepsLog _)
  intro _
  apply Within.pure

theorem spend_keepsLog (usage : Usage) :
  Within (KeepsLog env) (spend usage)
  := by
  apply Within.bind (setLocals_keepsLog _)
  intro _
  apply update_keepsLog
  intro s
  rfl

theorem endStream_keepsLog {onSuccess : Except String Unit} {messageId : String}
    {decision : RouterDecision} {current : InProgress} :
  Within (KeepsLog env) (endStream env now onSuccess messageId decision current)
  := by
  apply Within.bind Within.get
  intro r
  split
  · apply Within.pure
  apply Within.bind (Within.ofExcept onSuccess)
  intro _
  apply Within.bind (append_keepsLog _)
  intro _
  apply Within.bind (Within.forM fun usage _ => spend_keepsLog usage)
  intro _
  apply Within.bind (setLocals_keepsLog _)
  intro _
  apply Within.bind (emit_keepsLog _)
  intro _
  apply Within.bind (emit_keepsLog _)
  intro _
  apply (keepsLog_ignores env).startTools_within

theorem newMessage_keepsLog (role : Role) (content : List ContentPart) :
  Within (KeepsLog env) (newMessage env role content now)
  := by
  apply Within.bind (keepsLog_ignores env).drawId_within
  intro _
  apply Within.pure

theorem endTools_keepsLog {outcome : String → Except String Settled} {toolUses : List ToolUse}
    {startedAt : ℤ} {current : InProgress} :
  Within (KeepsLog env) (endTools env now outcome toolUses startedAt current)
  := by
  apply Within.bind (Within.ofExcept _)
  intro results
  apply Within.bind
  · apply Within.forM
    intro result _
    apply Within.bind (newMessage_keepsLog _ _)
    intro m
    apply Within.bind (append_keepsLog m)
    intro _
    apply Within.bind (emit_keepsLog _)
    intro _
    apply emit_keepsLog
  · intro _
    apply Within.pure

theorem endTurn_keepsLog :
  Within (KeepsLog env) (endTurn env options now)
  := by
  apply Within.bind Within.get
  intro r
  apply Within.bind (update_keepsLog fun s => map_id_setStatus _ _ _)
  intro _
  apply Within.bind (emit_keepsLog _)
  intro _
  apply Within.bind (Within.forM fun task _ => emit_keepsLog _)
  intro _
  apply Within.pure

theorem Logged.leave {code : Code Phase} (h : Logged env r) (hcode : Within (KeepsLog env) code) :
  Logged env (r.leave code)
  := by
  apply leave_of_wp
  apply hcode.mono
  all_goals
    intro _ t ht
    exact ⟨(ht h).ids, (ht h).turns, (ht h).own⟩

theorem Logged.attempt {code : Code Phase} (h : Logged env r) (hcode : Within (KeepsLog env) code) :
  Logged env (r.attempt env now code)
  := by
  apply attempt_of_wp
  apply hcode.mono
  · intro _ t ht
    exact ⟨(ht h).ids, (ht h).turns, (ht h).own⟩
  · intro e t ht
    apply (ht h).leave ((keepsLog_ignores env).caught_within e)

/-- One step of the runner logs only events of its own that conform. -/
theorem Logged.step {a : Action} {t : Runner} (h : Logged env r)
    (hstep : step env options r a = some t) :
  Logged env t
  := by
  cases move_of_step hstep with
  | run _ => apply h.leave (beginTurn_keepsLog _)
  | interrupt => exact ⟨h.ids, h.turns, h.own⟩
  | pass _ =>
    apply h.attempt
    apply (keepsLog_ignores env).beginPass_within
    intro c _
    apply applyCompaction_keepsLog
  | chunk _ => apply h.attempt (keepsLog_ignores env).receive_within
  | streamEnd _ => apply h.attempt endStream_keepsLog
  | streamError _ => apply h.leave ((keepsLog_ignores env).caught_within _)
  | toolsEnd _ => apply h.attempt endTools_keepsLog
  | settle _ => apply h.leave endTurn_keepsLog

end Logging

/-! ### Usage -/

/-- A neutral event adds nothing to a transcript. -/
theorem add_of_neutral {t : Transcript} {payload : Payload} (h : payload.neutral) :
  t.add payload = t
  := by
  cases payload with
  | sessionStarted cwd configHash volundVersion | sessionModelChanged model => rfl
  | turnStarted turnId parentTurnId agentType | turnCompleted turnId usage stopReason
  | turnAborted turnId reason | messageAppended messageId role content =>
    simp [Payload.neutral] at h
  | _ => rfl

theorem transcript_record {env : Externals} (r : Runner) (now : ℤ) (payload : Payload) :
  transcript (r.record env now payload).events = (transcript r.events).add payload
  := transcript_append r.events _

/-- What a runner has used: in all, as its log says, and in its turn. -/
@[ext]
structure Account where
  live : Spending
  logged : Spending
  turn : Spending

def Runner.account (r : Runner) : Account where
  live := r.state.cumulativeUsage.spending
  logged := (transcript r.events).usage
  turn := r.locals.turnUsage

/-- Nothing more is used or logged. -/
abbrev SameAccount : Runner → Runner → Prop :=
  Same account

/-- The turn has used more, and nothing of it is logged yet. -/
def Accrues (r t : Runner) : Prop :=
  ∃ more : Spending, t.account.live = r.account.live + more ∧
    t.account.logged = r.account.logged ∧ t.account.turn = r.account.turn + more

instance : IsPreorder Runner Accrues where
  refl r := ⟨0, (add_zero _).symm, rfl, (add_zero _).symm⟩
  trans _ _ _ := by
    rintro ⟨x, hlive, hlogged, hturn⟩ ⟨y, hlive', hlogged', hturn'⟩
    use x + y
    rw [hlive', hlive, hlogged', hlogged, hturn', hturn, add_assoc, add_assoc]
    exact ⟨rfl, rfl, rfl⟩

/-- Nothing more is used or logged. -/
theorem accrues_of_eq {r t : Runner} (h : t.account = r.account) :
  Accrues r t
  := by
  use 0
  rw [h, add_zero, add_zero]
  exact ⟨rfl, rfl, rfl⟩

theorem account_record {env : Externals} {r : Runner} {now : ℤ} {payload : Payload}
    (h : ∀ t : Transcript, (t.add payload).usage = t.usage) :
  (r.record env now payload).account = r.account
  := by
  simp only [account, transcript_record, h]
  rfl

theorem accrues_ignores (env : Externals) :
  Ignores env Accrues
  where
  draw _ := accrues_of_eq rfl
  record _ _ _ _ hneutral := by
    apply accrues_of_eq
    apply account_record
    intro t
    rw [add_of_neutral hneutral]
  locals r f hf := by
    apply accrues_of_eq
    simp only [account, (hf r.locals).2]
  prompt _ _ := accrues_of_eq rfl
  signal _ := accrues_of_eq rfl

section Accounts

variable {env : Externals} {options : RunnerOptions} {now : ℤ} {r : Runner}

theorem emit_sameAccount {payload : Payload}
    (h : ∀ t : Transcript, (t.add payload).usage = t.usage) :
  Within SameAccount (emit env now payload)
  := by
  intro r
  rw [wp_emit]
  split
  · apply account_record h
  · apply refl_of SameAccount

/-- A change of the state that keeps what was used. -/
theorem update_sameAccount {recipe : SessionState → SessionState}
    (h : ∀ s, (recipe s).cumulativeUsage = s.cumulativeUsage) :
  Within SameAccount (update recipe)
  := by
  intro r
  change Account.mk (recipe r.state).cumulativeUsage.spending _ _ = _
  rw [h]
  rfl

theorem append_sameAccount (m : Message) :
  Within SameAccount (append m)
  := by
  apply update_sameAccount
  intro s
  rfl

/-- Code that uses nothing accrues nothing. -/
theorem accrues_of_sameAccount {α : Type} {code : Code α} (h : Within SameAccount code) :
  Within Accrues code
  := Within.imp (fun _ _ => accrues_of_eq) h

/-- A model call is used by the session and by the turn. -/
theorem spend_accrues (usage : Usage) :
  Within Accrues (spend usage)
  := by
  intro r
  use Spending.ofUsage usage
  exact ⟨rfl, rfl, rfl⟩

theorem applyCompaction_accrues (compaction : Except String Compaction) :
  Within Accrues (applyCompaction env now compaction)
  := by
  apply Within.bind Within.get
  intro s
  apply Within.bind (accrues_of_sameAccount (update_sameAccount (by intro s; rfl)))
  intro _
  apply Within.bind (Within.ofExcept compaction)
  intro snapshot
  apply Within.bind (accrues_of_sameAccount (update_sameAccount (by intro s; rfl)))
  intro _
  apply accrues_of_sameAccount (emit_sameAccount fun t => rfl)

theorem endStream_accrues {onSuccess : Except String Unit} {messageId : String}
    {decision : RouterDecision} {current : InProgress} :
  Within Accrues (endStream env now onSuccess messageId decision current)
  := by
  apply Within.bind Within.get
  intro r
  split
  · apply Within.pure
  apply Within.bind (Within.ofExcept onSuccess)
  intro _
  apply Within.bind (accrues_of_sameAccount (append_sameAccount _))
  intro _
  apply Within.bind (Within.forM fun usage _ => spend_accrues usage)
  intro _
  apply Within.bind ((accrues_ignores env).setLocals_within (by intro l; exact ⟨rfl, rfl⟩))
  intro _
  apply Within.bind ((accrues_ignores env).emit_within rfl)
  intro _
  apply Within.bind (accrues_of_sameAccount (emit_sameAccount fun t => rfl))
  intro _
  apply (accrues_ignores env).startTools_within

theorem endTools_accrues {outcome : String → Except String Settled} {toolUses : List ToolUse}
    {startedAt : ℤ} {current : InProgress} :
  Within Accrues (endTools env now outcome toolUses startedAt current)
  := by
  apply Within.bind (Within.ofExcept _)
  intro results
  apply Within.bind
  · apply Within.forM
    intro result _
    apply Within.bind
    · apply Within.bind (accrues_ignores env).drawId_within
      intro _
      apply Within.pure
    intro m
    apply Within.bind (accrues_of_sameAccount (append_sameAccount m))
    intro _
    apply Within.bind ((accrues_ignores env).emit_within rfl)
    intro _
    apply accrues_of_sameAccount (emit_sameAccount fun t => rfl)
  · intro _
    apply Within.pure

/-- What the turn that is under way has used. -/
def Runner.pending (r : Runner) : Spending :=
  match r.phase with
  | .idle => 0
  | _ => r.account.turn

/-- The live usage is what is logged, what the turn under way has used, and what was lost. -/
def Balanced (lost : Spending) (r : Runner) : Prop :=
  r.account.live = r.account.logged + r.pending + lost

/-- What the end of a turn loses: what the turn used, if no `turn.completed` event reports it. -/
def lostBy (r : Runner) : Action → Spending
  | .settle _ =>
    if r.endsAborted || !(settledPayload false r.locals).conforms then r.locals.turnUsage else 0
  | _ => 0

variable {lost : Spending}

/-- What is left pending where the code of a turn leaves the runner is what it used. -/
theorem Balanced.of_accrues {t : Runner} (hphase : r.phase ≠ .idle)
    (h : Balanced lost r) (ht : Accrues r t) {phase : Phase} (hphase' : phase ≠ .idle) :
  Balanced lost { t with phase := phase }
  := by
  obtain ⟨more, hlive, hlogged, hturn⟩ := ht
  have hpend : r.pending = r.account.turn := by
    unfold Runner.pending
    split
    · next hidle => exact (hphase hidle).elim
    · rfl
  have hpend' : ({ t with phase := phase } : Runner).pending = t.account.turn := by
    unfold Runner.pending
    split
    · next hidle => exact (hphase' hidle).elim
    · rfl
  rw [Balanced, hpend] at h
  rw [Balanced, hpend']
  change t.account.live = t.account.logged + t.account.turn + lost
  rw [hlive, hlogged, hturn, h, ← add_assoc, add_right_comm]

/-- Code of the loop keeps the balance. -/
theorem Balanced.attempt (hphase : r.phase ≠ .idle) (h : Balanced lost r)
    {code : Code Phase} (hcode : Within Accrues code)
    (hret : Returns (fun phase => phase ≠ .idle) code) :
  Balanced lost (r.attempt env now code)
  := by
  apply attempt_of_wp
  apply wp_mono (wp_and (hcode r) (hret r))
  · rintro phase t ⟨ht, hne⟩
    apply h.of_accrues hphase ht hne
  rintro e t ⟨ht, _⟩
  apply leave_of_wp
  apply caught_succeeds.wp (E := fun _ _ => True)
  apply wp_mono (wp_and ((accrues_ignores env).caught_within e t) (caught_returns t))
  · rintro _ u ⟨hu, rfl⟩
    apply h.of_accrues hphase (trans_of Accrues ht hu)
    nofun
  · intro _ _ _
    exact True.intro

/-- Catching an error of the stream keeps the balance. -/
theorem Balanced.caught (hphase : r.phase ≠ .idle) (h : Balanced lost r) (error : String) :
  Balanced lost (r.leave (caught env now error))
  := by
  apply leave_of_wp
  apply caught_succeeds.wp (E := fun _ _ => True)
  apply wp_mono (wp_and ((accrues_ignores env).caught_within error r) (caught_returns r))
  · rintro _ t ⟨ht, rfl⟩
    apply h.of_accrues hphase ht
    nofun
  · intro _ _ _
    exact True.intro

/-- The start of a turn keeps the balance: nothing is pending before it, nor once it has
started. -/
theorem Balanced.beginTurn (hphase : r.phase = .idle) (h : Balanced lost r)
    (input : List ContentPart) :
  Balanced lost (r.leave (beginTurn env options input now))
  := by
  have hlive : r.account.live = r.account.logged + lost := by
    rw [Balanced, Runner.pending, hphase, add_zero] at h
    apply h
  have hrest (user : Message) : Within SameAccount (do
      let r ← get
      emit env now (startedPayload r)
      options.taskRun.toList.forM fun task => emit env now (.taskStarted task)
      append user
      emit env now (appendedPayload user)
      return Phase.looping) := by
    apply Within.bind Within.get
    intro s
    apply Within.bind (emit_sameAccount fun t => rfl)
    intro _
    apply Within.bind (Within.forM fun task _ => emit_sameAccount fun t => rfl)
    intro _
    apply Within.bind (append_sameAccount user)
    intro _
    apply Within.bind (emit_sameAccount fun t => rfl)
    intro _
    apply Within.pure
  have hbal (t : Runner) (phase : Phase)
      (ht : t.account = ⟨r.account.live, r.account.logged, 0⟩) :
      Balanced lost { t with phase := phase } := by
    have hpend : ({ t with phase := phase } : Runner).pending = 0 := by
      unfold Runner.pending
      split
      · rfl
      · change t.account.turn = 0
        rw [ht]
    rw [Balanced, hpend, add_zero]
    change t.account.live = t.account.logged + lost
    rw [ht]
    apply hlive
  apply leave_of_wp
  rw [Core.beginTurn, wp_bind]
  apply (hrest _).mono
  · intro phase t ht
    apply hbal t phase ht
  · intro _ t ht
    apply hbal t _ ht

/-- The end of a turn keeps the balance, with what it loses. -/
theorem Balanced.endTurn (hphase : r.phase ≠ .idle) (h : Balanced lost r) :
  Balanced (lost + lostBy r (.settle now)) (r.leave (endTurn env options now))
  := by
  have hlive : r.account.live = r.account.logged + r.account.turn + lost := by
    have hpend : r.pending = r.account.turn := by
      unfold Runner.pending
      split
      · next hidle => exact (hphase hidle).elim
      · rfl
    rw [Balanced, hpend] at h
    apply h
  have hbal (t : Runner) (hlive' : t.account.live = r.account.live)
      (hlogged : r.account.logged + r.account.turn + lost =
        t.account.logged + (lost + lostBy r (.settle now))) :
      Balanced (lost + lostBy r (.settle now)) { t with phase := .idle } := by
    change t.account.live = t.account.logged + 0 + (lost + lostBy r (.settle now))
    rw [hlive', hlive, add_zero, hlogged]
  have htasks : Within SameAccount (options.taskRun.toList.forM fun task =>
      emit env now (taskPayload r.endsAborted r.locals now task)) := by
    apply Within.forM
    intro task _
    apply emit_sameAccount
    intro t
    rw [add_of_neutral]
    rw [taskPayload]
    split
    · rfl
    · rfl
  have hset (t : Runner)
      (hconf : (settledPayload r.endsAborted r.locals).conforms)
      (ht : t.account = ⟨r.account.live,
        ((transcript r.events).add (settledPayload r.endsAborted r.locals)).usage,
        r.account.turn⟩) :
      Balanced (lost + lostBy r (.settle now)) { t with phase := .idle } := by
    apply hbal t
    · rw [ht]
    rw [ht]
    cases habort : r.endsAborted with
    | true =>
      have hlost : lostBy r (.settle now) = r.locals.turnUsage := by
        simp [lostBy, habort]
      rw [hlost, add_assoc, add_comm r.account.turn]
      rfl
    | false =>
    rw [habort] at hconf
    have hlost : lostBy r (.settle now) = 0 := by
      rw [lostBy, habort, hconf]
      rfl
    rw [hlost, add_zero]
    rfl
  apply leave_of_wp
  rw [Core.endTurn, wp_bind, wp_get]
  dsimp only
  rw [wp_bind, wp_update, wp_bind, wp_emit]
  split
  · rename_i hconf
    rw [wp_bind]
    apply htasks.mono
    all_goals
      intro _ t ht
      apply hset t hconf
      rw [ht, account, transcript_record]
      rfl
  rename_i hconf
  apply hbal
  · rfl
  have hlost : lostBy r (.settle now) = r.locals.turnUsage := by
    cases habort : r.endsAborted with
    | true => simp [lostBy, habort]
    | false =>
      rw [habort] at hconf
      simp [lostBy, hconf]
  rw [hlost, add_assoc, add_comm r.account.turn]
  rfl

theorem endStream_returns {onSuccess : Except String Unit} {messageId : String}
    {decision : RouterDecision} {current : InProgress} :
  Returns (fun phase => phase ≠ .idle)
    (endStream env now onSuccess messageId decision current)
  := by
  apply Returns.bind
  intro r
  split
  · apply Returns.pure
    nofun
  apply Returns.bind
  intro _
  apply Returns.bind
  intro _
  apply Returns.bind
  intro _
  apply Returns.bind
  intro _
  apply Returns.bind
  intro _
  apply Returns.bind
  intro _
  apply startTools_returns.imp
  rintro _ (⟨_, rfl⟩ | ⟨_, rfl⟩)
  · nofun
  · nofun

/-- One step of the runner keeps the balance, with what it loses. -/
theorem Balanced.step {a : Action} {t : Runner} (h : Balanced lost r)
    (hstep : step env options r a = some t) :
  Balanced (lost + lostBy r a) t
  := by
  cases move_of_step hstep with
  | run hphase =>
    simp only [lostBy, add_zero]
    apply h.beginTurn hphase
  | interrupt =>
    simp only [lostBy, add_zero]
    apply h
  | pass hphase =>
    simp only [lostBy, add_zero]
    apply h.attempt (by simp [hphase])
    · apply (accrues_ignores env).beginPass_within
      intro c _
      apply applyCompaction_accrues
    apply beginPass_returns.imp
    rintro _ (rfl | ⟨n, decision, rfl⟩)
    · nofun
    · nofun
  | chunk hphase =>
    simp only [lostBy, add_zero]
    apply h.attempt (by simp [hphase]) (accrues_ignores env).receive_within
    apply receive_returns.imp
    rintro _ (rfl | rfl | rfl)
    all_goals nofun
  | streamEnd hphase =>
    simp only [lostBy, add_zero]
    apply h.attempt (by simp [hphase]) endStream_accrues endStream_returns
  | streamError hphase =>
    simp only [lostBy, add_zero]
    apply h.caught (by simp [hphase])
  | toolsEnd hphase =>
    simp only [lostBy, add_zero]
    apply h.attempt (by simp [hphase]) endTools_accrues
    apply Returns.bind
    intro _
    apply Returns.bind
    intro _
    apply Returns.pure
    nofun
  | settle hphase => apply h.endTurn (by simp [hphase])

end Accounts

/-! ### Sessions from their start -/

/-- A session that has not run. -/
structure Unused (state : SessionState) : Prop where
  messages : state.messages = []
  turns : state.turns = []
  usage : state.cumulativeUsage.spending = 0

theorem createSession_unused (id cwd : String) (maxTokens : ℚ) (tools : String)
    (lineage : Option Lineage) (budget : Option Budget) (now : ℤ) :
  Unused (createSession id cwd maxTokens tools lineage budget now)
  := ⟨rfl, rfl, rfl⟩

section Runs

variable {env : Externals} {options : RunnerOptions} {state : SessionState}
  {actions : List Action} {r : Runner}

/-- The events of every run have ids drawn for them, and are its own and conform. -/
theorem logged_of_run (hstate : Unused state)
    (hrun : run (step env options) (.new state) actions = some r) :
  Logged env r
  := by
  apply run_invariant (I := Logged env) (fun s a t hs hstep => hs.step hstep) _ hrun
  constructor
  · apply Drawn.nil
  · change Drawn env 0 (state.turns.map Turn.id)
    rw [hstate.turns]
    apply Drawn.nil
  · intro e he
    simp [Runner.new] at he

/-- The events of a run, delivered without others. -/
theorem Logged.delivered (h : Logged env r) {delivered : List (CoreEvent × ℤ)}
    (hdeliv : delivered.map Prod.fst = r.events) :
  Delivered r.events delivered ∧ Deep delivered
  := by
  have hown : ∀ d ∈ delivered, d.1.forwarded = false ∧ d.1.payload.conforms := by
    intro d hd
    apply h.own
    rw [← hdeliv]
    apply mem_map_of_mem hd
  constructor
  · constructor
    · rw [hdeliv, filter_eq_self]
      intro e he
      simp [(h.own e he).1]
    · intro d hd
      apply (hown d hd).2
    all_goals
      intro d hd hfwd
      simp [(hown d hd).1] at hfwd
  · intro d hd hfwd
    simp [(hown d hd).1] at hfwd

/-- The live usage of a session is what its log reports and what its turns lost. -/
theorem live_eq_logged_add_lost (hstate : Unused state)
    (hrun : run (step env options) (.new state) actions = some r) (hidle : r.phase = .idle) :
  r.state.cumulativeUsage.spending =
    (transcript r.events).usage + total (step env options) lostBy (.new state) actions
  := by
  have hstart : Balanced 0 (.new state) := by
    rw [Balanced, add_zero]
    change state.cumulativeUsage.spending = 0 + 0
    rw [hstate.usage, add_zero]
  have hbal := run_total (fun lost s a t hs hstep => hs.step hstep) hstart hrun
  rw [Balanced, Runner.pending, hidle, add_zero] at hbal
  apply hbal

theorem Spending.add_eq_left {a b : Spending} :
  a = a + b ↔ b = 0
  := by
  simp [Spending.ext_iff]

/-- The usage of a session whose log is replayed is the live one exactly if its turns that ended
without reporting it used nothing in all. -/
theorem usage_replay_eq_live_iff (hinj : Function.Injective env.uuidv7) (hstate : Unused state)
    (hrun : run (step env options) (.new state) actions = some r) (hidle : r.phase = .idle)
    {delivered : List (CoreEvent × ℤ)} (hdeliv : delivered.map Prod.fst = r.events)
    (sessionId : String) (replayOptions : ReplayOptions) (now : ℤ) :
  (replaySessionState sessionId (sessionLog delivered) replayOptions now).state.cumulativeUsage.spending =
      r.state.cumulativeUsage.spending ↔
    total (step env options) lostBy (.new state) actions = 0
  := by
  have hlogged : Logged env r := logged_of_run hstate hrun
  obtain ⟨hdel, hdeep⟩ := hlogged.delivered hdeliv
  have hreplay := transcriptOf_replay hdel hdeep (hlogged.ids.nodup hinj) Copied.refl sessionId
    replayOptions now
  have husage := congrArg Transcript.usage hreplay
  change (replaySessionState sessionId (sessionLog delivered) replayOptions
    now).state.cumulativeUsage.spending = (transcript r.events).usage at husage
  rw [husage, live_eq_logged_add_lost hstate hrun hidle, Spending.add_eq_left]

/-- Ids for examples are drawn once. -/
theorem sampleExternals_injective :
  Function.Injective sampleExternals.uuidv7
  := by
  intro n m h
  have hlist := congrArg (fun s => s.toList.length) h
  simpa [sampleExternals] using hlist

/-- A turn whose only model call reports what it used. -/
def spentTurn : List Action :=
  [.run [.text "go"] 1, .pass (.ok sampleDecision) (.ok "") none 2,
    .chunk (.usage ⟨10, 5, none, none, some (1 / 100)⟩) (.ok none) 3, .streamEnd (.ok ()) 4]

theorem usage_replay_eq_live_iff_spentTurn :
  ∃ r, run (step sampleExternals .default) (.new sampleSession) (spentTurn ++ [.settle 5]) =
      some r ∧
    (replaySessionState "session" (sessionLog (r.events.map fun e => (e, 6))) .default
      7).state.cumulativeUsage.spending = r.state.cumulativeUsage.spending
  := by
  have hret : (run (step sampleExternals .default) (.new sampleSession)
      (spentTurn ++ [.settle 5])).any hasReturned := by decide +kernel
  obtain ⟨r, hrun, hidle⟩ := Option.any_eq_true _ _ |>.mp hret
  use r, hrun
  have hdeliv : (r.events.map fun e => (e, (6 : ℤ))).map Prod.fst = r.events := by
    rw [map_map]
    apply map_id
  apply (usage_replay_eq_live_iff sampleExternals_injective (createSession_unused _ _ _ _ _ _ _)
    hrun (hasReturned_iff.mp hidle) hdeliv "session" .default 7).mpr
  decide +kernel

/-- An interrupt after the model call ends the turn without a report of what it used. -/
theorem usage_replay_ne_live :
  ∃ r, run (step sampleExternals .default) (.new sampleSession)
      (spentTurn ++ [.interrupt, .settle 5]) = some r ∧ r.phase = .idle ∧
    (replaySessionState "session" (sessionLog (r.events.map fun e => (e, 6))) .default
      7).state.cumulativeUsage.spending ≠ r.state.cumulativeUsage.spending
  := by
  have hret : (run (step sampleExternals .default) (.new sampleSession)
      (spentTurn ++ [.interrupt, .settle 5])).any (fun r => r.hasReturned &&
        (replaySessionState "session" (sessionLog (r.events.map fun e => (e, 6))) .default
          7).state.cumulativeUsage.spending ≠ r.state.cumulativeUsage.spending) := by
    decide +kernel
  obtain ⟨r, hrun, hr⟩ := Option.any_eq_true _ _ |>.mp hret
  rw [Bool.and_eq_true] at hr
  exact ⟨r, hrun, hasReturned_iff.mp hr.1, of_decide_eq_true hr.2⟩

end Runs

end Core
