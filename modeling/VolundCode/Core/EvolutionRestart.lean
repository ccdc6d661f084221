import VolundCode.Core.EvolutionStopping

/-!
# Restarting the engine

A new engine over the same store goes on as the engine before it, in every run up to then in which
things that have not got worse end no row of times in which they had, the records of a validation
are not refused, and nobody else has records of the context appended after the audit log was read
(`restarts_of_recorded`). The engine then remembers what the audit log says.

A row of times that has ended is not in the audit log, so that a new engine counts on
(`not_restarts`).
-/

namespace Core

namespace EvolutionEngine

open Run Evolution Function Storage.EvolutionStore Option
open Storage.EvolutionStore (Refusal DecodedEvolutionRecord decodes decodesSignal decodesValue
  decodesReason decodesAction knownParam clean)

variable {o : Options} {sanitize : String → String}

/-! ### What engines agree on -/

/-- The values before and after an adjustment. -/
def values (record : EvolutionRecord) : ℚ × ℚ :=
  (record.before, record.after)

/-- Two engines remember the same of the parameters of the context. -/
structure Agree (e e' : Engine) : Prop where
  last : ∀ p : ContextTunableParam,
    (e.last (.context p)).map values = (e'.last (.context p)).map values
  worsen : ∀ p : ContextTunableParam, e.worsen (.context p) = e'.worsen (.context p)
  stopped : ∀ p : ContextTunableParam, e.stopped (.context p) = e'.stopped (.context p)

variable {e e' : Engine}

theorem Agree.trans {e'' : Engine} (h : Agree e e') (h' : Agree e' e'') :
  Agree e e''
  := ⟨fun p => (h.last p).trans (h'.last p), fun p => (h.worsen p).trans (h'.worsen p),
      fun p => (h.stopped p).trans (h'.stopped p)⟩

variable {record : EvolutionRecord}

/-- Engines agree on the last adjustment when both have a new one with the same values. -/
theorem Agree.setLast (h : Agree e e') (param : Param) {record' : EvolutionRecord}
    (hvalues : values record = values record') :
  Agree { e with last := Function.update e.last param (some record) }
    { e' with last := Function.update e'.last param (some record') }
  := by
  refine ⟨?_, h.worsen, h.stopped⟩
  intro p
  dsimp only
  rw [update_apply, update_apply]
  split_ifs
  · exact congrArg some hvalues
  · exact h.last p

/-- Engines agree on the times in a row when both set them. -/
theorem Agree.setWorsen (h : Agree e e') (param : Param) {streak streak' : ℕ}
    (hstreak : ∀ p, param = .context p → streak = streak') :
  Agree { e with worsen := Function.update e.worsen param streak }
    { e' with worsen := Function.update e'.worsen param streak' }
  := by
  refine ⟨h.last, ?_, h.stopped⟩
  intro p
  dsimp only
  rw [update_apply, update_apply]
  split_ifs with hparam
  · exact hstreak p hparam.symm
  · exact h.worsen p

/-- Engines agree on what is stopped when both stop a parameter. -/
theorem Agree.stop (h : Agree e e') (param : Param) :
  Agree { e with stopped := Function.update e.stopped param true }
    { e' with stopped := Function.update e'.stopped param true }
  := by
  refine ⟨h.last, h.worsen, ?_⟩
  intro p
  dsimp only
  rw [update_apply, update_apply]
  split_ifs
  · rfl
  · exact h.stopped p

/-- What is remembered of other parameters does not matter. -/
theorem Agree.of_same {f : Engine} (h : Agree e e')
    (hlast : ∀ p : ContextTunableParam, f.last (.context p) = e.last (.context p))
    (hworsen : ∀ p : ContextTunableParam, f.worsen (.context p) = e.worsen (.context p))
    (hstop : ∀ p : ContextTunableParam, f.stopped (.context p) = e.stopped (.context p)) :
  Agree f e'
  := by
  constructor
  · intro p
    rw [hlast p]
    exact h.last p
  · intro p
    rw [hworsen p]
    exact h.worsen p
  · intro p
    rw [hstop p]
    exact h.stopped p

/-! ### What the audit log says -/

/-- What a new engine remembers of the records of an audit log. -/
def replayed (audit : List DecodedEvolutionRecord) : Engine :=
  restoreAll Engine.fresh (audit.map Subtype.val)

theorem replayed_push (store : Store) (record : DecodedEvolutionRecord) :
  replayed (store.push record).audit = restoreRecord (replayed store.audit) record.1
  := by
  rw [replayed, replayed, restoreAll, restoreAll, Storage.EvolutionStore.State.push, List.map_append,
    List.foldl_append]
  rfl

/-- A record of another namespace says nothing. -/
theorem restoreRecord_other (engine : Engine) (h : record.param.namespace ≠ .context) :
  restoreRecord engine record = engine
  := if_neg h

/-- The engine remembers what the audit log says, or has not read it and remembers nothing. -/
structure Reflects (w : World) : Prop where
  agree : Agree w.restore.engine (replayed w.store.audit)
  unread : w.engine.restored = false → w.engine = { Engine.fresh with windows := w.engine.windows }

variable {w : World}

/-- An engine that has read the audit log, and remembers what it says. -/
theorem Reflects.of_restored (hres : w.engine.restored)
    (h : Agree w.engine (replayed w.store.audit)) :
  Reflects w
  := by
  constructor
  · rw [restore_of_restored hres]
    exact h
  · intro hunread
    rw [hres] at hunread
    cases hunread

/-- An engine that has not read the audit log reads what it says. -/
theorem restore_agree (hres : w.engine.restored = false)
    (hunread : w.engine = { Engine.fresh with windows := w.engine.windows }) :
  Agree w.restore.engine (replayed w.store.audit)
  := by
  have hrestore : w.restore.engine =
      { restoreAll w.engine (w.store.audit.map Subtype.val) with restored := true } := by
    rw [World.restore]
    simp only [hres, Bool.false_eq_true, if_false]
  rw [hrestore, hunread, restoreAll_windows]
  exact ⟨fun _ => rfl, fun _ => rfl, fun _ => rfl⟩

theorem Reflects.of_unread (hres : w.engine.restored = false)
    (hunread : w.engine = { Engine.fresh with windows := w.engine.windows }) :
  Reflects w
  := ⟨restore_agree hres hunread, fun _ => hunread⟩

/-- Reading the audit log keeps what the engine reflects. -/
theorem Reflects.restore (h : Reflects w) :
  Reflects w.restore
  := by
  apply Reflects.of_restored (restore_restored w)
  rw [restore_store]
  exact h.agree

theorem Reflects.setWindow (h : Reflects w) (ns : Namespace) (bucket : List Signal) :
  Reflects (w.setWindow ns bucket)
  := by
  constructor
  · rw [restore_setWindow]
    exact ⟨h.agree.last, h.agree.worsen, h.agree.stopped⟩
  intro hres
  have hunread := h.unread hres
  rw [World.setWindow]
  dsimp only
  rw [hunread]

/-! ### Records in the engine and in the audit log -/

variable {param : Param}

theorem param_ne_of_other (h : param.namespace ≠ .context) (p : ContextTunableParam) :
  Param.context p ≠ param
  := by
  rintro rfl
  exact h rfl

/-- A parameter is stopped in the engine and in the audit log. -/
theorem stop_agree (h : Agree w.engine e) (record : EvolutionRecord)
    (hact : record.action = .stopped ∨ record.action = .confirmationRejected) :
  Agree (w.stop record.param).engine (restoreRecord e record)
  := by
  by_cases hctx : record.param.namespace = .context
  · have hrec : restoreRecord e record =
        { e with stopped := Function.update e.stopped record.param true } := by
      rcases hact with hact | hact
      all_goals simp only [restoreRecord, hctx, hact, if_true]
    rw [hrec]
    exact h.stop record.param
  rw [restoreRecord_other e hctx]
  refine h.of_same (fun _ => rfl) (fun _ => rfl) ?_
  intro p
  exact update_of_ne (param_ne_of_other hctx p) _ _

/-- A parameter is adjusted in the engine and in the audit log. -/
theorem setLast_agree (h : Agree w.engine e) (record : EvolutionRecord)
    (hact : record.action = .adjusted) :
  Agree (w.setLast record).engine (restoreRecord e (clean sanitize record))
  := by
  by_cases hctx : record.param.namespace = .context
  · have hrec : restoreRecord e (clean sanitize record) =
        { e with last := Function.update e.last record.param (some (clean sanitize record)) } := by
      simp only [restoreRecord, clean, hctx, hact, if_true]
    rw [hrec]
    exact h.setLast record.param rfl
  have hrec : restoreRecord e (clean sanitize record) = e := restoreRecord_other e hctx
  rw [hrec]
  refine h.of_same ?_ (fun _ => rfl) (fun _ => rfl)
  intro p
  exact update_of_ne (param_ne_of_other hctx p) _ _

/-- An adjustment is rolled back in the engine and in the audit log. -/
theorem setWorsen_agree (h : Agree w.engine e) (record : EvolutionRecord)
    (hact : record.action = .rolledBack) :
  Agree (w.setWorsen record.param (w.engine.worsen record.param + 1)).engine (restoreRecord e record)
  := by
  by_cases hctx : record.param.namespace = .context
  · have hrec : restoreRecord e record =
        { e with worsen := Function.update e.worsen record.param (e.worsen record.param + 1) } := by
      simp only [restoreRecord, hctx, hact, if_true]
    rw [hrec]
    apply h.setWorsen
    intro p hp
    rw [hp, h.worsen p]
  rw [restoreRecord_other e hctx]
  refine h.of_same (fun _ => rfl) ?_ (fun _ => rfl)
  intro p
  exact update_of_ne (param_ne_of_other hctx p) _ _

/-- The audit log after a record has been appended. -/
theorem replayed_append {s t : Store} (happ : s.append sanitize record = .ok t) :
  replayed t.audit = restoreRecord (replayed s.audit) (clean sanitize record)
  := by
  obtain ⟨_, _, hclean, rfl⟩ := (append_ok_iff sanitize).mp happ
  exact replayed_push s ⟨clean sanitize record, hclean⟩

/-! ### What the engine reflects after a step -/

/-- A record is refused, and the engine stays as it is, or it is appended, and the rest of the call
reflects it. -/
theorem appending_reflects {rest : World → Result × World} (hres : w.engine.restored)
    (hw : ∀ refusal, w.store.append sanitize record = .error refusal →
      Agree w.engine (replayed w.store.audit))
    (hrest : ∀ w' : World, w'.engine = w.engine →
      w.store.append sanitize record = .ok w'.store → Reflects (rest w').2) :
  Reflects (w.appending sanitize record rest).2
  := by
  rw [World.appending]
  split
  · next store hstore => exact hrest _ rfl hstore
  · next refusal href => exact Reflects.of_restored hres (hw refusal href)

variable {signal : Signal} {now : ℤ}

theorem propose_reflects {proposed : ℚ} {reason : String} {confirmed : Bool} (h : Reflects w) :
  Reflects (propose o sanitize w param proposed reason signal confirmed now).2
  := by
  have hagree : Agree w.restore.engine (replayed w.restore.store.audit) := by
    rw [restore_store]
    exact h.agree
  rcases propose_cases o sanitize w param proposed reason signal confirmed now with
    ⟨hprop, _⟩ | hprop | ⟨_, _, ⟨before, defaultValue, _, hprop⟩ | ⟨before, after, _, hprop⟩⟩
  · rw [hprop]
    exact h
  · rw [hprop]
    exact h.restore
  · rw [hprop, reject]
    apply appending_reflects (restore_restored w) (fun _ _ => hagree)
    intro w' hw' happ
    have hagree' : Agree w'.engine (replayed w.restore.store.audit) := by
      rw [hw']
      exact hagree
    apply Reflects.of_restored
    · change w'.engine.restored = true
      rw [hw']
      exact restore_restored w
    change Agree _ (replayed w'.store.audit)
    rw [replayed_append happ]
    exact stop_agree hagree'
      (clean sanitize (rejectedOf before defaultValue param reason signal now)) (Or.inr rfl)
  rw [hprop, adjust]
  apply appending_reflects (restore_restored w) (fun _ _ => hagree)
  intro w' hw' happ
  have hagree' : Agree w'.engine (replayed w.restore.store.audit) := by
    rw [hw']
    exact hagree
  apply Reflects.of_restored
  · change w'.engine.restored = true
    rw [hw']
    exact restore_restored w
  · change Agree _ (replayed w'.store.audit)
    rw [replayed_append happ]
    exact setLast_agree hagree' (adjustedOf before after param reason signal now) rfl

/-- The record that a parameter is stopped is appended after the one that its adjustment is rolled
back. -/
theorem stopped_appended {s t : Store} {prior : EvolutionRecord} (hplain : Plain sanitize)
    (happ : s.append sanitize (rollbackOf prior param signal now) = .ok t) :
  ∃ u, t.append sanitize (stoppedOf prior.before param signal now) = .ok u
  := by
  have hcur : ∀ p, (rollbackOf prior param signal now).param = .context p →
      t.current = Function.update s.current p (rollbackOf prior param signal now).after :=
    fun p hp => append_current hp happ
  have hadm : Attempt.Admissible
      { store := t, record := stoppedOf prior.before param signal now } :=
    stoppedOf_admissible fun p hp => hcur p hp
  obtain ⟨hdec, href, hclean, rfl⟩ := (append_ok_iff sanitize).mp happ
  obtain ⟨hfut, _, _⟩ := refusal_eq_none_iff.mp href
  have hstop : decodes (stoppedOf prior.before param signal now) := by
    have hreason : decodesReason stoppedReason := by decide +kernel
    simp only [decodes, rollbackOf, Bool.and_eq_true] at hdec
    simp only [decodes, stoppedOf, decodesAction, Bool.and_eq_true]
    obtain ⟨⟨⟨⟨⟨hknown, _⟩, hafter⟩, _⟩, hsignal⟩, _⟩ := hdec
    exact ⟨⟨⟨⟨⟨hknown, hafter⟩, hafter⟩, hreason⟩, hsignal⟩, decide_eq_true True.intro⟩
  have hstoppedClean : clean sanitize (stoppedOf prior.before param signal now)
      = stoppedOf prior.before param signal now := by
    rw [clean, stoppedOf, hplain.stopped]
  refine ⟨_, (append_ok_iff sanitize).mpr ⟨hstop, ?_, ?_, rfl⟩⟩
  · rw [hstoppedClean, refusal_eq_none_iff]
    refine ⟨hfut, ?_, hadm⟩
    simp [Storage.EvolutionStore.State.regresses, Storage.EvolutionStore.State.push, stoppedOf,
      rollbackOf, clean]
  · rw [hstoppedClean]
    exact hstop

/-- What is remembered after a validation is what the audit log says, unless a row of times is ended
or a record of the validation is refused. -/
def Recorded (o : Options) (w : World) : Action → Prop
  | .validate (.context p) false _ _ =>
    o.isEnabled .context → w.restore.engine.worsen (.context p) = 0
  | .validate (.context p) true signal now =>
    o.isEnabled .context → (w.restore.engine.last (.context p)).isSome →
      reversible o w (.context p) ∧ Recordable w (.validate (.context p) true signal now)
  | .write record => w.engine.restored → record.param.namespace ≠ .context
  | _ => True

instance Recorded.decidable (o : Options) (w : World) : (a : Action) → Decidable (Recorded o w a)
  | .validate (.context _) false _ _ => inferInstanceAs (Decidable (_ → _))
  | .validate (.context _) true _ _ => inferInstanceAs (Decidable (_ → _ → _ ∧ _))
  | .write _ => inferInstanceAs (Decidable (_ → _))
  | .propose _ _ _ _ _ _ | .observe _ _ _ _ => isTrue True.intro
  | .validate .cooldownMs _ _ _ | .validate .maxAttempts _ _ _ | .validate .maxRetries _ _ _
  | .validate .backoffFactor _ _ _ | .validate .defaultTimeoutMs _ _ _ | .validate (.tool _) _ _ _ =>
    isTrue True.intro

/-- Setting the times in a row to what they are. -/
theorem setWorsen_same (h : Agree w.engine e) {streak : ℕ}
    (hstreak : ∀ p, param = .context p → streak = w.engine.worsen param) :
  Agree (w.setWorsen param streak).engine e
  := by
  refine h.of_same (fun _ => rfl) ?_ (fun _ => rfl)
  intro p
  change Function.update w.engine.worsen param streak (.context p) = _
  rw [update_apply]
  split_ifs with hparam
  · rw [hstreak p hparam.symm, hparam]
  · rfl

/-- A validation that is recorded keeps what the engine reflects. -/
theorem validate_reflects {worsened : Bool}
    (hplain : Plain sanitize) (hrem : w.engine.Remembers) (h : Reflects w)
    (hrecorded : Recorded o w (.validate param worsened signal now)) :
  Reflects (validate o sanitize w param worsened signal now).2
  := by
  have hagree : Agree w.restore.engine (replayed w.restore.store.audit) := by
    rw [restore_store]
    exact h.agree
  rw [validate]
  split_ifs with hon
  · rw [Bool.and_eq_true] at hon
    dsimp only
    split
    · have hset : Agree (w.restore.setWorsen param 0).engine (replayed w.restore.store.audit) := by
        apply setWorsen_same hagree
        rintro p rfl
        exact (hrecorded hon.1).symm
      exact Reflects.of_restored (restore_restored w) hset
    · exact h.restore
    rename_i prior hprior
    have hres : (w.restore.setWorsen param
        (w.restore.engine.worsen param + 1)).engine.restored := restore_restored w
    apply appending_reflects hres
    · intro refusal href
      apply setWorsen_same hagree
      rintro p rfl
      -- for a parameter of the context the record is not refused
      obtain ⟨hsound, hrec⟩ := hrecorded hon.1 (isSome_iff_exists.mpr ⟨prior, hprior⟩)
      obtain ⟨store, hstore⟩ := rollback_appended hplain hrem hprior hon.1 hsound hrec
      rw [← restore_store] at hstore
      cases hstore.symm.trans href
    intro w' hw' happ
    have hres' : w'.engine.restored := by
      rw [hw']
      exact hres
    have hagree' : Agree w'.engine (replayed w'.store.audit) := by
      rw [hw', replayed_append happ]
      exact setWorsen_agree hagree (clean sanitize (rollbackOf prior param signal now)) rfl
    split_ifs
    · obtain ⟨store, hstore⟩ := stopped_appended hplain happ
      have hstop : (w'.stop param).engine.restored := hres'
      apply appending_reflects hstop
      · intro refusal href
        cases hstore.symm.trans href
      intro w'' hw'' happ'
      apply Reflects.of_restored
      · rw [hw'']
        exact hres'
      · rw [hw'', replayed_append happ']
        exact stop_agree hagree' (clean sanitize (stoppedOf prior.before param signal now))
          (Or.inl rfl)
    · exact Reflects.of_restored hres' hagree'
  · exact h

theorem written_reflects (h : Reflects w) (hrec : Recorded o w (.write record)) :
  Reflects (w.written sanitize record)
  := by
  rw [World.written]
  split
  · rename_i store hstore
    cases hres : w.engine.restored with
    | true =>
      have hres' : ({ w with store := store } : World).engine.restored := hres
      apply Reflects.of_restored hres'
      have hagree := h.agree
      rw [restore_of_restored hres] at hagree
      have hother : (clean sanitize record).param.namespace ≠ .context := hrec hres
      dsimp only
      rw [replayed_append hstore, restoreRecord_other _ hother]
      exact hagree
    | false =>
      have hres' : ({ w with store := store } : World).engine.restored = false := hres
      exact Reflects.of_unread hres' (h.unread hres)
  · exact h

variable {w' : World}

/-- A step that is recorded keeps what the engine reflects. -/
theorem step_reflects {a : Action} (hplain : Plain sanitize)
    (hrem : w.engine.Remembers) (h : Reflects w) (hrec : Recorded o w a)
    (hstep : step o sanitize w a = some w') :
  Reflects w'
  := by
  cases hstep
  cases a with
  | propose param proposed reason signal confirmed now => exact propose_reflects h
  | observe ns signal confirmed now =>
    change Reflects (observe o sanitize w ns signal confirmed now).2
    rw [observe]
    split_ifs
    · exact h.setWindow ns _
    · split
      · exact h.setWindow ns []
      · exact propose_reflects (h.setWindow ns [])
    · exact h
  | validate param worsened signal now => exact validate_reflects hplain hrem h hrec
  | write record => exact written_reflects h hrec

/-! ### Going on -/

/-- A proposal or a validation for a parameter of the context. -/
inductive Call where
  | propose (p : ContextTunableParam) (proposed : ℚ) (reason : String) (signal : Signal)
      (confirmed : Bool) (now : ℤ)
  | validate (p : ContextTunableParam) (worsened : Bool) (signal : Signal) (now : ℤ)

/-- The call as an action. -/
def Call.action : Call → Action
  | .propose p proposed reason signal confirmed now =>
    .propose (.context p) proposed reason signal confirmed now
  | .validate p worsened signal now => .validate (.context p) worsened signal now

/-- Two engines over the same store, which have had the same records appended, agree after they have
read the audit log. -/
structure Same (w w' : World) : Prop where
  store : w.store = w'.store
  attempts : w.attempts = w'.attempts
  agree : Agree w.restore.engine w'.restore.engine

theorem Same.restore (h : Same w w') :
  Same w.restore w'.restore
  := by
  constructor
  · rw [restore_store, restore_store]
    exact h.store
  · rw [restore_attempts, restore_attempts]
    exact h.attempts
  · rw [restore_of_restored (restore_restored w), restore_of_restored (restore_restored w')]
    exact h.agree

/-- Engines that have read the audit log. -/
theorem Same.of_restored (hres : w.engine.restored)
    (hres' : w'.engine.restored) (hstore : w.store = w'.store)
    (hatts : w.attempts = w'.attempts) (hagree : Agree w.engine w'.engine) :
  Same w w'
  := by
  refine ⟨hstore, hatts, ?_⟩
  rw [restore_of_restored hres, restore_of_restored hres']
  exact hagree

/-- Both have the record appended, or refused. -/
theorem appending_same {rest rest' : World → Result × World}
    (hres : w.engine.restored) (hres' : w'.engine.restored)
    (hstore : w.store = w'.store) (hatts : w.attempts = w'.attempts)
    (hagree : Agree w.engine w'.engine)
    (hrest : ∀ v v' : World, v.engine = w.engine → v'.engine = w'.engine → v.store = v'.store →
      v.attempts = v'.attempts → Same (rest v).2 (rest' v').2) :
  Same (w.appending sanitize record rest).2 (w'.appending sanitize record rest').2
  := by
  have hlogged : (w.attempt record).attempts = (w'.attempt record).attempts := by
    rw [World.attempt, World.attempt, hatts, hstore]
  rw [World.appending, World.appending, hstore]
  split
  · next store hstore' => exact hrest _ _ rfl rfl rfl hlogged
  · exact Same.of_restored hres hres' hstore hlogged hagree

theorem propose_same (h : Same w w') {p : ContextTunableParam} {proposed : ℚ}
    {reason : String} {confirmed : Bool} :
  Same (propose o sanitize w (.context p) proposed reason signal confirmed now).2
    (propose o sanitize w' (.context p) proposed reason signal confirmed now).2
  := by
  have hstore : w.restore.store = w'.restore.store := h.restore.store
  have hatts : w.restore.attempts = w'.restore.attempts := h.restore.attempts
  rw [propose, propose]
  split_ifs
  · dsimp only
    rw [h.agree.stopped p, hstore]
    split_ifs
    · exact h.restore
    split
    · exact h.restore
    · rw [reject, reject]
      apply appending_same (restore_restored w) (restore_restored w') hstore hatts h.agree
      intro v v' hv hv' hstore' hatts'
      apply Same.of_restored
      · change v.engine.restored = true
        rw [hv]
        exact restore_restored w
      · change v'.engine.restored = true
        rw [hv']
        exact restore_restored w'
      · exact hstore'
      · exact hatts'
      · rw [World.stop, World.stop, hv, hv']
        exact h.agree.stop (.context p)
    rw [adjust, adjust]
    apply appending_same (restore_restored w) (restore_restored w') hstore hatts h.agree
    intro v v' hv hv' hstore' hatts'
    apply Same.of_restored
    · change v.engine.restored = true
      rw [hv]
      exact restore_restored w
    · change v'.engine.restored = true
      rw [hv']
      exact restore_restored w'
    · exact hstore'
    · exact hatts'
    · rw [World.setLast, World.setLast, hv, hv']
      exact h.agree.setLast (.context p) rfl
  · exact h

/-- The records with which adjustments of the same values are rolled back are the same. -/
theorem rollbackOf_eq {prior prior' : EvolutionRecord} (h : values prior = values prior')
    (param : Param) (signal : Signal) (now : ℤ) :
  rollbackOf prior param signal now = rollbackOf prior' param signal now
  := by
  obtain ⟨hpre, hafter⟩ := Prod.mk.inj h
  rw [rollbackOf, rollbackOf, hpre, hafter]

theorem validate_same (h : Same w w') {p : ContextTunableParam} {worsened : Bool} :
  Same (validate o sanitize w (.context p) worsened signal now).2
    (validate o sanitize w' (.context p) worsened signal now).2
  := by
  have hstore : w.restore.store = w'.restore.store := h.restore.store
  have hatts : w.restore.attempts = w'.restore.attempts := h.restore.attempts
  have hset (streak : ℕ) : Agree (w.restore.setWorsen (.context p) streak).engine
      (w'.restore.setWorsen (.context p) streak).engine :=
    h.agree.setWorsen (.context p) fun _ _ => rfl
  have hlast := h.agree.last p
  rw [validate, validate]
  split_ifs
  · dsimp only
    cases worsened with
    | false =>
      exact Same.of_restored (restore_restored w) (restore_restored w') hstore hatts (hset 0)
    | true =>
    cases hprior : w.restore.engine.last (.context p) with
    | none =>
      rw [hprior, map_none, eq_comm, map_eq_none_iff] at hlast
      rw [hlast]
      exact h.restore
    | some prior =>
    rw [hprior, map_some, eq_comm, map_eq_some_iff] at hlast
    obtain ⟨prior', hprior', hvalues⟩ := hlast
    rw [hprior', h.agree.worsen p]
    dsimp only
    rw [rollbackOf_eq hvalues.symm]
    have hres : (w.restore.setWorsen (.context p)
        (w'.restore.engine.worsen (.context p) + 1)).engine.restored :=
      restore_restored w
    have hres' : (w'.restore.setWorsen (.context p)
        (w'.restore.engine.worsen (.context p) + 1)).engine.restored :=
      restore_restored w'
    apply appending_same hres hres' hstore hatts (hset _)
    intro v v' hv hv' hstore' hatts'
    have hvres : v.engine.restored := by
      rw [hv]
      exact hres
    have hvres' : v'.engine.restored := by
      rw [hv']
      exact hres'
    have hagree : Agree v.engine v'.engine := by
      rw [hv, hv']
      exact hset _
    split_ifs
    · have hstop : (v.stop (.context p)).engine.restored := hvres
      have hstop' : (v'.stop (.context p)).engine.restored := hvres'
      apply appending_same hstop hstop' hstore' hatts' (hagree.stop (.context p))
      intro u u' hu hu' hstore'' hatts''
      apply Same.of_restored
      · rw [hu]
        exact hvres
      · rw [hu']
        exact hvres'
      · exact hstore''
      · exact hatts''
      · rw [hu, hu']
        exact hagree.stop (.context p)
    · exact Same.of_restored hvres hvres' hstore' hatts' hagree
  · exact h

/-- A call keeps two engines the same. -/
theorem step_same {v v' : World} {c : Call} (h : Same w w')
    (hstep : step o sanitize w c.action = some v) (hstep' : step o sanitize w' c.action = some v') :
  Same v v'
  := by
  cases hstep
  cases hstep'
  cases c with
  | propose p proposed reason signal confirmed now => exact propose_same h
  | validate p worsened signal now => exact validate_same h

/-- Calls keep two engines the same. -/
theorem run_same {cs : List Call} {v v' : World} (h : Same w w')
    (hrun : run (step o sanitize) w (cs.map Call.action) = some v)
    (hrun' : run (step o sanitize) w' (cs.map Call.action) = some v') :
  Same v v'
  := by
  induction cs generalizing w w' with
  | nil =>
    cases hrun
    cases hrun'
    exact h
  | cons c cs ih =>
    obtain ⟨u, hu, hrest⟩ := run_cons_eq_some.mp hrun
    obtain ⟨u', hu', hrest'⟩ := run_cons_eq_some.mp hrun'
    exact ih (step_same h hu hu') hrest hrest'

/-! ### All runs -/

/-- The program starts again over the same store. -/
def World.restart (w : World) : World :=
  { w with engine := Engine.fresh }

/-- A new engine is the same as one that reflects the audit log. -/
theorem restart_same (h : Reflects w) :
  Same w w.restart
  := by
  refine ⟨rfl, rfl, h.agree.trans ?_⟩
  exact ⟨fun _ => rfl, fun _ => rfl, fun _ => rfl⟩

/-- After every run in which no row of times is ended by things that have not got worse, the records
of the validations are not refused, and nobody else has records of the context appended after the
audit log was read, a new engine has the same records appended as the engine before it, to the same
store, and stops the same parameters, whatever is then proposed and validated. -/
theorem restarts_of_recorded (hplain : Plain sanitize) {store : Store} {as : List Action}
    {cs : List Call} {w v v' : World}
    (hrec : Guarded (step o sanitize) (Recorded o) (World.start store) as)
    (hrun : run (step o sanitize) (World.start store) as = some w)
    (hgoOn : run (step o sanitize) w (cs.map Call.action) = some v)
    (hrestart : run (step o sanitize) w.restart (cs.map Call.action) = some v') :
  v'.attempts = v.attempts ∧ v'.store = v.store ∧ ∀ p : ContextTunableParam,
      v'.restore.engine.stopped (.context p) = v.restore.engine.stopped (.context p)
  := by
  have hstart : (World.start store).engine.Remembers ∧ Reflects (World.start store) :=
    ⟨start_remembers store, Reflects.of_unread rfl rfl⟩
  have hw : w.engine.Remembers ∧ Reflects w := by
    refine Guarded.invariant (I := fun w : World => w.engine.Remembers ∧ Reflects w) ?_ hstart
      hrec hrun
    intro s a t hs hrec hstep
    exact ⟨step_remembers hs.1 hstep, step_reflects hplain hs.1 hs.2 hrec hstep⟩
  have hsame := run_same (restart_same hw.2) hgoOn hrestart
  exact ⟨hsame.attempts.symm, hsame.store.symm, fun p => (hsame.agree.stopped p).symm⟩

/-! ### A row of times that is counted on -/

/-- Things have not got worse. -/
def eased : Action :=
  .validate (.context .targetRatio) false [] 0

/-- The ratio aimed at is adjusted, and things have got worse. -/
def goingOn : List Call :=
  [.propose .targetRatio (1 / 2) "reason" [] true 0, .validate .targetRatio true [] 0]

/-- Things get worse, then they do not, and then they get worse twice: the new engine counts three
times and stops the parameter, and the engine before it does not. -/
theorem not_restarts :
  ¬ ∀ (store : Store) (as : List Action) (cs : List Call) (w v v' : World),
      run (step Options.default id) (World.start store) as = some w →
        run (step Options.default id) w (cs.map Call.action) = some v →
          run (step Options.default id) w.restart (cs.map Call.action) = some v' →
            v'.attempts = v.attempts ∧ v'.store = v.store ∧ ∀ p : ContextTunableParam,
                v'.restore.engine.stopped (.context p) = v.restore.engine.stopped (.context p)
  := by
  intro h
  have hrun : (run (step Options.default id) (World.start emptyStore)
      [proposeHalf, worsened, eased, proposeHalf, worsened]).any (fun w =>
        (run (step Options.default id) w (goingOn.map Call.action)).any fun v =>
          (run (step Options.default id) w.restart (goingOn.map Call.action)).any fun v' =>
            !decide (v'.restore.engine.stopped (.context .targetRatio) =
              v.restore.engine.stopped (.context .targetRatio))) := by
    decide +kernel
  obtain ⟨w, hw, hany⟩ := (any_eq_true _ _).mp hrun
  obtain ⟨v, hv, hany⟩ := (any_eq_true _ _).mp hany
  obtain ⟨v', hv', hnot⟩ := (any_eq_true _ _).mp hany
  rw [Bool.not_eq_true', decide_eq_false_iff_not] at hnot
  exact hnot ((h emptyStore _ goingOn w v v' hw hv hv').2.2 .targetRatio)

/-- Without a time in between at which things have not got worse, the new engine goes on as the one
before it. -/
theorem restarts_of_recorded_worsened :
  ∃ w v v' : World, run (step Options.default id) (World.start emptyStore)
        [proposeHalf, worsened, proposeHalf, worsened] = some w ∧
      run (step Options.default id) w (goingOn.map Call.action) = some v ∧
        run (step Options.default id) w.restart (goingOn.map Call.action) = some v' ∧
          v'.attempts = v.attempts ∧ v'.store = v.store ∧ ∀ p : ContextTunableParam,
              v'.restore.engine.stopped (.context p) = v.restore.engine.stopped (.context p)
  := by
  have hrec : Guarded (step Options.default id) (Recorded Options.default)
      (World.start emptyStore) [proposeHalf, worsened, proposeHalf, worsened] := by
    decide +kernel
  have hplain : Plain (id : String → String) := ⟨rfl, rfl⟩
  obtain ⟨w, hw⟩ : ∃ w, run (step Options.default id) (World.start emptyStore)
      [proposeHalf, worsened, proposeHalf, worsened] = some w := ⟨_, rfl⟩
  obtain ⟨v, hv⟩ : ∃ v, run (step Options.default id) w (goingOn.map Call.action) = some v := ⟨_, rfl⟩
  obtain ⟨v', hv'⟩ : ∃ v', run (step Options.default id) w.restart (goingOn.map Call.action) = some v' :=
    ⟨_, rfl⟩
  exact ⟨w, v, v', hw, hv, hv', restarts_of_recorded hplain hrec hw hv hv'⟩

end EvolutionEngine

end Core
