import VolundCode.Core.EvolutionAdmission

/-!
# Parameters that are stopped

When things get worse several times in a row after adjustments of a parameter, the parameter is
stopped, in every run in which an adjustment is rolled back only while it is the one persisted, and
the records are not refused for their signals or their times. Together with the admission of all
records this is `admitted_of_sound`.

The engine does not check this: after an adjustment has been rolled back, it would roll it back a
second time, which the store refuses, and then the parameter is never stopped (`not_admitted`).
-/

namespace Core

open List

namespace EvolutionEngine

open Run Evolution
open Storage.EvolutionStore (Refusal decodes decodesSignal decodesValue decodesReason decodesAction
  knownParam clean)

variable {o : Options} {sanitize : String → String}

/-! ### What is remembered can be rolled back -/

/-- The last adjustments that are remembered are adjustments of their parameters, and well formed. -/
def Engine.Remembers (engine : Engine) : Prop :=
  ∀ param prior, engine.last param = some prior →
    prior.param = param ∧ prior.action = .adjusted ∧ decodes prior

variable {record : EvolutionRecord}

theorem Engine.Remembers.setLast {engine : Engine} (h : engine.Remembers)
    (hact : record.action = .adjusted) (hdec : decodes record) :
  Engine.Remembers { engine with last := Function.update engine.last record.param (some record) }
  := by
  intro param prior hprior
  dsimp only at hprior
  by_cases hparam : param = record.param
  · subst hparam
    rw [Function.update_self] at hprior
    cases hprior
    exact ⟨rfl, hact, hdec⟩
  · rw [Function.update_of_ne hparam] at hprior
    exact h param prior hprior

theorem restoreRecord_remembers {engine : Engine} (h : engine.Remembers) (hdec : decodes record) :
  (restoreRecord engine record).Remembers
  := by
  rw [restoreRecord]
  split_ifs
  · cases hact : record.action with
    | adjusted => exact h.setLast hact hdec
    | rolledBack | stopped | confirmationRejected => exact h
  · exact h

theorem restoreAll_remembers {engine : Engine} (h : engine.Remembers) {audit : List EvolutionRecord}
    (hdec : ∀ record ∈ audit, decodes record) :
  (restoreAll engine audit).Remembers
  := by
  induction audit generalizing engine with
  | nil => exact h
  | cons record audit ih =>
    rw [forall_mem_cons] at hdec
    exact ih (restoreRecord_remembers h hdec.1) hdec.2

variable {w : World}

theorem restore_remembers (h : w.engine.Remembers) :
  w.restore.engine.Remembers
  := by
  rw [World.restore]
  split_ifs
  · exact h
  apply restoreAll_remembers h
  intro record hrec
  obtain ⟨decoded, _, rfl⟩ := mem_map.mp hrec
  exact decoded.2

/-- What the engine remembers after a record is appended or refused, and what follows. -/
theorem appending_remembers {rest : World → Result × World} (hw : w.engine.Remembers)
    (hrest : ∀ store, w.store.append sanitize record = .ok store →
      ∀ w' : World, w'.engine = w.engine → (rest w').2.engine.Remembers) :
  (w.appending sanitize record rest).2.engine.Remembers
  := by
  rw [World.appending]
  split
  · next store hstore => exact hrest store hstore _ rfl
  · exact hw

variable {param : Param} {signal : Signal} {now : ℤ}

theorem propose_remembers {proposed : ℚ} {reason : String}
    {confirmed : Bool} (hw : w.engine.Remembers) :
  (propose o sanitize w param proposed reason signal confirmed now).2.engine.Remembers
  := by
  rcases propose_cases o sanitize w param proposed reason signal confirmed now with
    ⟨hprop, _⟩ | hprop | ⟨_, _, ⟨before, defaultValue, _, hprop⟩ | ⟨before, after, _, hprop⟩⟩
  · rw [hprop]
    exact hw
  · rw [hprop]
    exact restore_remembers hw
  · rw [hprop, reject]
    apply appending_remembers (restore_remembers hw)
    intro store _ w' hw'
    change w'.engine.Remembers
    rw [hw']
    exact restore_remembers hw
  rw [hprop, adjust]
  apply appending_remembers (restore_remembers hw)
  intro store hstore w' hw'
  have hdec := ((Storage.EvolutionStore.append_ok_iff sanitize).mp hstore).1
  have hrem : w'.engine.Remembers := by
    rw [hw']
    exact restore_remembers hw
  exact hrem.setLast rfl hdec

theorem validate_remembers {worsened : Bool} (hw : w.engine.Remembers) :
  (validate o sanitize w param worsened signal now).2.engine.Remembers
  := by
  rw [validate]
  split_ifs
  · dsimp only
    split
    · exact restore_remembers hw
    · exact restore_remembers hw
    rename_i prior _
    have hset : (w.restore.setWorsen param
        (w.restore.engine.worsen param + 1)).engine.Remembers := restore_remembers hw
    apply appending_remembers hset
    intro store _ w' hw'
    have hrem : w'.engine.Remembers := by
      rw [hw']
      exact hset
    split_ifs
    · have hstop : (w'.stop param).engine.Remembers := hrem
      apply appending_remembers hstop
      intro _ _ w'' hw''
      change w''.engine.Remembers
      rw [hw'']
      exact hstop
    · exact hrem
  · exact hw

variable {w' : World}

/-- A step keeps what is remembered well formed. -/
theorem step_remembers {a : Action} (hw : w.engine.Remembers)
    (hstep : step o sanitize w a = some w') :
  w'.engine.Remembers
  := by
  cases hstep
  cases a with
  | propose param proposed reason signal confirmed now => exact propose_remembers hw
  | observe ns signal confirmed now =>
    change (observe o sanitize w ns signal confirmed now).2.engine.Remembers
    rw [observe]
    split_ifs
    · exact hw
    · split
      · exact hw
      · exact propose_remembers (w := w.setWindow ns []) hw
    · exact hw
  | validate param worsened signal now => exact validate_remembers hw
  | write record =>
  rw [World.after, World.written]
  split
  · exact hw
  · exact hw

/-! ### A roll back is recorded -/

/-- There are no secrets in the reasons of the engine. -/
structure Plain (sanitize : String → String) : Prop where
  rollback : sanitize rollbackReason = rollbackReason
  stopped : sanitize stoppedReason = stoppedReason

/-- A value of a parameter that the store knows is well formed in the record that rolls an
adjustment back. -/
theorem rollbackOf_decodes {prior : EvolutionRecord}
    (hparam : prior.param = param) (hact : prior.action = .adjusted)
    (hdec : decodes prior) (hsignal : decodesSignal signal) :
  decodes (rollbackOf prior param signal now)
  := by
  subst hparam
  have hreason : decodesReason rollbackReason := by decide +kernel
  simp only [decodes, hact, decodesAction, Bool.and_eq_true, decide_eq_true_eq] at hdec
  simp only [decodes, rollbackOf, decodesAction, Bool.and_eq_true]
  obtain ⟨⟨⟨⟨⟨hknown, hpre⟩, hafter⟩, _⟩, _⟩, hne⟩ := hdec
  exact ⟨⟨⟨⟨⟨hknown, hafter⟩, hpre⟩, hreason⟩, hsignal⟩, decide_eq_true (Ne.symm hne)⟩

/-- The adjustment that is persisted can be rolled back. -/
theorem rollback_appended {prior : EvolutionRecord}
    (hplain : Plain sanitize) (hrem : w.engine.Remembers)
    (hprior : w.restore.engine.last param = some prior) (hon : o.isEnabled param.namespace)
    (hsound : reversible o w param) (hrec : Recordable w (.validate param true signal now)) :
  ∃ store, w.store.append sanitize (rollbackOf prior param signal now) = .ok store
  := by
  obtain ⟨hparam, hact, hdec⟩ := restore_remembers hrem param prior hprior
  obtain ⟨hsignal, hfut, htime⟩ := hrec
  have hrollback : decodes (rollbackOf prior param signal now) :=
    rollbackOf_decodes hparam hact hdec hsignal
  have hclean : clean sanitize (rollbackOf prior param signal now) = rollbackOf prior param signal now := by
    rw [clean, rollbackOf, hplain.rollback]
  refine ⟨_, (Storage.EvolutionStore.append_ok_iff sanitize).mpr ⟨hrollback, ?_, ?_, rfl⟩⟩
  · rw [hclean, Storage.EvolutionStore.refusal_eq_none_iff]
    refine ⟨hfut, ?_, ?_⟩
    · rw [Storage.EvolutionStore.State.regresses, Option.any_eq_false]
      intro previous hprev
      rw [decide_eq_false_iff_not, not_lt]
      exact htime previous hprev
    intro p hp
    obtain rfl : param = .context p := hp
    obtain ⟨hcur, hvalid⟩ := valid_of_reversible o hsound hon hprior
    exact ⟨hcur.symm, hvalid⟩
  · rw [hclean]
    exact hrollback

/-! ### Times in a row -/

/-- The parameter has an adjustment, things got worse at least `k` times in a row, and if this is
too many, the parameter is stopped. -/
structure Streak (o : Options) (param : Param) (k : ℕ) (w : World) : Prop where
  last : (w.restore.engine.last param).isSome
  worsen : k ≤ w.restore.engine.worsen param
  restored : 0 < k → w.engine.restored
  stopped : 0 < k → o.worsenStreakLimit ≤ w.restore.engine.worsen param →
    w.restore.engine.stopped param

/-- Another call leaves the times in a row as they are. -/
structure Keeps (param : Param) (w w' : World) : Prop where
  last : (w.restore.engine.last param).isSome → (w'.restore.engine.last param).isSome
  worsen : w.restore.engine.worsen param ≤ w'.restore.engine.worsen param
  same : w.engine.restored → w'.restore.engine.worsen param = w.restore.engine.worsen param
  restored : w.engine.restored → w'.engine.restored
  stopped : w.restore.engine.stopped param → w'.restore.engine.stopped param

theorem Keeps.refl (param : Param) (w : World) :
  Keeps param w w
  := ⟨id, le_refl _, fun _ => rfl, id, id⟩

theorem Keeps.trans {w'' : World} (h : Keeps param w w') (h' : Keeps param w' w'') :
  Keeps param w w''
  := by
  refine ⟨fun hw => h'.last (h.last hw), le_trans h.worsen h'.worsen, ?_,
    fun hw => h'.restored (h.restored hw), fun hw => h'.stopped (h.stopped hw)⟩
  intro hw
  rw [h'.same (h.restored hw), h.same hw]

variable {k : ℕ}

theorem Streak.keeps (h : Streak o param k w) (hkeeps : Keeps param w w') :
  Streak o param k w'
  := by
  refine ⟨hkeeps.last h.last, le_trans h.worsen hkeeps.worsen, fun hk => hkeeps.restored (h.restored hk),
    ?_⟩
  intro hk hlimit
  rw [hkeeps.same (h.restored hk)] at hlimit
  exact hkeeps.stopped (h.stopped hk hlimit)

theorem restore_restored (w : World) :
  w.restore.engine.restored
  := by
  rw [World.restore]
  split_ifs with hres
  · exact hres
  · rfl

/-- Once it has been read, the audit log is not read again. -/
theorem restore_of_restored (h : w.engine.restored) :
  w.restore = w
  := if_pos h

/-- After the audit log has been read, what the engine remembers is what counts. -/
theorem Streak.of_restored (hres : w.engine.restored)
    (hlast : (w.engine.last param).isSome) (hworsen : k ≤ w.engine.worsen param)
    (hstop : o.worsenStreakLimit ≤ w.engine.worsen param → w.engine.stopped param) :
  Streak o param k w
  := by
  have hw := restore_of_restored hres
  constructor
  · rw [hw]
    exact hlast
  · rw [hw]
    exact hworsen
  · exact fun _ => hres
  · rw [hw]
    exact fun _ => hstop

/-- A call after the audit log has been read keeps the times in a row, if it keeps those
remembered. -/
theorem Keeps.of_restored (hres : w'.engine.restored)
    (hlast : (w.restore.engine.last param).isSome → (w'.engine.last param).isSome)
    (hworsen : w'.engine.worsen param = w.restore.engine.worsen param)
    (hstop : w.restore.engine.stopped param → w'.engine.stopped param) :
  Keeps param w w'
  := by
  have hw' := restore_of_restored hres
  constructor
  · rw [hw']
    exact hlast
  · rw [hw', hworsen]
  · intro _
    rw [hw', hworsen]
  · exact fun _ => hres
  · rw [hw']
    exact hstop

/-- The engine remembers what it did after the audit log was read. -/
theorem Keeps.of_engine (h : w'.engine = w.restore.engine) :
  Keeps param w w'
  := by
  apply Keeps.of_restored
  · rw [h]
    exact restore_restored w
  · rw [h]
    exact id
  · rw [h]
  · rw [h]
    exact id

/-- The audit log has been read, and the engine remembers what it did. -/
theorem Keeps.of_eq (hres : w.engine.restored) (h : w'.engine = w.engine) :
  Keeps param w w'
  := by
  apply Keeps.of_engine
  rw [restore_of_restored hres]
  exact h

theorem appending_keeps {v : World} {rest : World → Result × World} (hv : Keeps param w v)
    (hrest : ∀ w' : World, w'.engine = v.engine → Keeps param w (rest w').2)
    (hres : v.engine.restored) :
  Keeps param w (v.appending sanitize record rest).2
  := by
  rw [World.appending]
  split
  · exact hrest _ rfl
  · exact hv.trans (Keeps.of_eq hres rfl)

/-- A proposal keeps the times in a row of all parameters. -/
theorem propose_keeps (param : Param) {proposedParam : Param} {proposed : ℚ}
    {reason : String} {confirmed : Bool} :
  Keeps param w (propose o sanitize w proposedParam proposed reason signal confirmed now).2
  := by
  have hres : Keeps param w w.restore := Keeps.of_engine rfl
  rcases propose_cases o sanitize w proposedParam proposed reason signal confirmed now with
    ⟨hprop, _⟩ | hprop | ⟨_, _, ⟨before, defaultValue, _, hprop⟩ | ⟨before, after, _, hprop⟩⟩
  · rw [hprop]
    exact Keeps.refl param w
  · rw [hprop]
    exact hres
  · rw [hprop, reject]
    apply appending_keeps hres _ (restore_restored w)
    intro w' hw'
    apply Keeps.of_restored
    · change w'.engine.restored = true
      rw [hw']
      exact restore_restored w
    · change _ → (w'.engine.last param).isSome = true
      rw [hw']
      exact id
    · change w'.engine.worsen param = _
      rw [hw']
    change _ → Function.update w'.engine.stopped proposedParam true param = true
    rw [hw', Function.update_apply]
    intro hstop
    split_ifs
    · rfl
    · exact hstop
  rw [hprop, adjust]
  apply appending_keeps hres _ (restore_restored w)
  intro w' hw'
  apply Keeps.of_restored
  · change w'.engine.restored = true
    rw [hw']
    exact restore_restored w
  · change _ → (Function.update w'.engine.last proposedParam _ param).isSome = true
    rw [hw', Function.update_apply]
    intro hlast
    split_ifs
    · rfl
    · exact hlast
  · change w'.engine.worsen param = _
    rw [hw']
  · change _ → w'.engine.stopped param = true
    rw [hw']
    exact id

theorem setWindow_keeps (param : Param) (w : World) (ns : Namespace) (bucket : List Signal) :
  Keeps param w (w.setWindow ns bucket)
  := by
  have hres := restore_setWindow w ns bucket
  constructor
  · rw [hres]
    exact id
  · rw [hres]
  · rw [hres]
    exact fun _ => rfl
  · exact id
  · rw [hres]
    exact id

/-- A measurement keeps the times in a row of all parameters. -/
theorem observe_keeps (param : Param) {ns : Namespace} {confirmed : Bool} :
  Keeps param w (observe o sanitize w ns signal confirmed now).2
  := by
  rw [observe]
  split_ifs
  · exact setWindow_keeps param w ns _
  · split
    · exact setWindow_keeps param w ns _
    · exact (setWindow_keeps param w ns []).trans (propose_keeps param)
  · exact Keeps.refl param w

theorem setWorsen_keeps {other : Param} (hne : param ≠ other) {streak : ℕ}
    (hres : w.engine.restored) :
  Keeps param w (w.setWorsen other streak)
  := by
  have hres' : (w.setWorsen other streak).engine.restored := hres
  apply Keeps.of_restored hres'
  · rw [restore_of_restored hres]
    exact id
  · rw [restore_of_restored hres]
    change Function.update w.engine.worsen other streak param = _
    rw [Function.update_of_ne hne]
  · rw [restore_of_restored hres]
    exact id

theorem stop_keeps {other : Param} (hne : param ≠ other) (hres : w.engine.restored) :
  Keeps param w (w.stop other)
  := by
  have hres' : (w.stop other).engine.restored := hres
  apply Keeps.of_restored hres'
  · rw [restore_of_restored hres]
    exact id
  · rw [restore_of_restored hres]
    rfl
  rw [restore_of_restored hres]
  change _ → Function.update w.engine.stopped other true param = true
  rw [Function.update_of_ne hne]
  exact id

/-- A validation of another parameter keeps the times in a row. -/
theorem validate_keeps {other : Param} (hne : param ≠ other) {worsened : Bool} :
  Keeps param w (validate o sanitize w other worsened signal now).2
  := by
  have hrestore : Keeps param w w.restore := Keeps.of_engine rfl
  have hset (streak : ℕ) : Keeps param w (w.restore.setWorsen other streak) :=
    hrestore.trans (setWorsen_keeps hne (restore_restored w))
  rw [validate]
  split_ifs
  · dsimp only
    split
    · exact hset 0
    · exact hrestore
    rename_i prior _
    have hres : (w.restore.setWorsen other
        (w.restore.engine.worsen other + 1)).engine.restored := restore_restored w
    apply appending_keeps (hset _) _ hres
    intro w' hw'
    have hkeeps : Keeps param w w' := (hset _).trans (Keeps.of_eq hres hw')
    have hres' : w'.engine.restored := by
      rw [hw']
      exact hres
    split_ifs
    · have hstop : Keeps param w (w'.stop other) := hkeeps.trans (stop_keeps hne hres')
      apply appending_keeps hstop _ hres'
      intro w'' hw''
      exact hstop.trans (Keeps.of_eq hres' hw'')
    · exact hkeeps
  · exact Keeps.refl param w

/-- A record of another parameter or of this one: what is restored with it. -/
theorem restoreRecord_keeps (engine : Engine) (record : EvolutionRecord) (param : Param) :
  ((engine.last param).isSome → ((restoreRecord engine record).last param).isSome) ∧
    engine.worsen param ≤ (restoreRecord engine record).worsen param ∧
      (engine.stopped param → (restoreRecord engine record).stopped param)
  := by
  have hstop : engine.stopped param → Function.update engine.stopped record.param true param := by
    intro h
    rw [Function.update_apply]
    split_ifs
    · rfl
    · exact h
  rw [restoreRecord]
  split_ifs
  · cases record.action with
    | adjusted =>
      refine ⟨?_, le_refl _, id⟩
      intro h
      change (Function.update engine.last record.param (some record) param).isSome = true
      rw [Function.update_apply]
      split_ifs
      · rfl
      · exact h
    | rolledBack =>
      refine ⟨id, ?_, id⟩
      change _ ≤ Function.update engine.worsen record.param (engine.worsen record.param + 1) param
      rw [Function.update_apply]
      split_ifs with hparam
      · rw [hparam]
        exact Nat.le_succ _
      · exact le_refl _
    | stopped | confirmationRejected => exact ⟨id, le_refl _, hstop⟩
  · exact ⟨id, le_refl _, id⟩

/-- A record that somebody else has the store append keeps the times in a row. -/
theorem written_keeps (param : Param) (w : World) (record : EvolutionRecord) :
  Keeps param w (w.written sanitize record)
  := by
  rw [World.written]
  split
  · rename_i store hstore
    obtain ⟨_, _, hclean, rfl⟩ := (Storage.EvolutionStore.append_ok_iff sanitize).mp hstore
    cases hres : w.engine.restored with
    | true =>
      apply Keeps.of_engine
      rw [restore_of_restored hres]
    | false =>
    have hrestore : World.restore { w with store := w.store.push ⟨clean sanitize record, hclean⟩ }
        = { w with
            engine :=
              { restoreRecord (restoreAll w.engine (w.store.audit.map Subtype.val))
                  (clean sanitize record) with restored := true }
            store := w.store.push ⟨clean sanitize record, hclean⟩ } := by
      rw [World.restore]
      simp only [hres, Storage.EvolutionStore.State.push, restoreAll, map_append,
        foldl_append, Bool.false_eq_true, if_false]
      rfl
    have hpre : w.restore.engine =
        { restoreAll w.engine (w.store.audit.map Subtype.val) with restored := true } := by
      rw [World.restore]
      simp only [hres, Bool.false_eq_true, if_false]
    obtain ⟨hlast, hworsen, hstop⟩ := restoreRecord_keeps
      (restoreAll w.engine (w.store.audit.map Subtype.val)) (clean sanitize record) param
    constructor
    · rw [hrestore, hpre]
      exact hlast
    · rw [hrestore, hpre]
      exact hworsen
    · intro h
      rw [hres] at h
      cases h
    · intro h
      rw [hres] at h
      cases h
    · rw [hrestore, hpre]
      exact hstop
  · exact Keeps.refl param w

/-- The times in a row after the last adjustment of the parameter is rolled back: there is one more,
and if this is too many the parameter is stopped. -/
theorem validate_streak
    (hplain : Plain sanitize) (hrem : w.engine.Remembers)
    (hon : o.isEnabled param.namespace) (hstreak : Streak o param k w)
    (hsound : reversible o w param) (hrec : Recordable w (.validate param true signal now)) :
  Streak o param (k + 1) (validate o sanitize w param true signal now).2
  := by
  obtain ⟨prior, hprior⟩ := Option.isSome_iff_exists.mp hstreak.last
  obtain ⟨hparam, _, hdec⟩ := restore_remembers hrem param prior hprior
  have hallowed : allowed param := by
    simp only [decodes, hparam, Bool.and_eq_true] at hdec
    cases param with
    | tool name => exact absurd hdec.1.1.1.1.1 (by simp [knownParam])
    | _ => rfl
  obtain ⟨store, hstore⟩ := rollback_appended hplain hrem hprior hon hsound hrec
  rw [← restore_store] at hstore
  have hvalidate : validate o sanitize w param true signal now =
      (w.restore.setWorsen param (w.restore.engine.worsen param + 1)).appending sanitize
        (rollbackOf prior param signal now) fun w' =>
          if o.worsenStreakLimit ≤ w.restore.engine.worsen param + 1 then
            (w'.stop param).appending sanitize
              (stoppedOf (rollbackOf prior param signal now).after param signal now) fun w'' =>
                (.ok (some (rollbackOf prior param signal now)), w'')
          else (.ok (some (rollbackOf prior param signal now)), w') := by
    simp only [validate, hon, hallowed, Bool.and_self, if_true, hprior]
  have hworsen : k + 1 ≤ Function.update w.restore.engine.worsen param
      (w.restore.engine.worsen param + 1) param := by
    rw [Function.update_self]
    exact Nat.succ_le_succ hstreak.worsen
  have hres := restore_restored w
  rw [hvalidate, World.appending]
  have hstore' : (w.restore.setWorsen param (w.restore.engine.worsen param + 1)).store.append sanitize
      (rollbackOf prior param signal now) = .ok store := hstore
  rw [hstore']
  dsimp only
  split_ifs with hlimit
  · -- the parameter is stopped whether or not the record of it is refused
    have hstop : o.worsenStreakLimit ≤ Function.update w.restore.engine.worsen param
        (w.restore.engine.worsen param + 1) param →
          Function.update w.restore.engine.stopped param true param :=
      fun _ => Function.update_self _ _ _
    rw [World.appending]
    split
    all_goals exact Streak.of_restored hres hstreak.last hworsen hstop
  refine Streak.of_restored hres hstreak.last hworsen ?_
  intro hlimit'
  change o.worsenStreakLimit ≤ Function.update w.restore.engine.worsen param
    (w.restore.engine.worsen param + 1) param at hlimit'
  rw [Function.update_self] at hlimit'
  exact absurd hlimit' hlimit

/-! ### All runs -/

/-- After the action things have got worse with the parameter. -/
def Action.worsens (param : Param) : Action → Bool
  | .validate other true _ _ => other = param
  | _ => false

/-- After the action things have not got worse with the parameter. -/
def Action.eases (param : Param) : Action → Bool
  | .validate other false _ _ => other = param
  | _ => false

/-- A step counts the times in a row. -/
theorem step_streak {a : Action} (hplain : Plain sanitize)
    (hrem : w.engine.Remembers) (hon : o.isEnabled param.namespace)
    (hstreak : Streak o param k w) (hsound : Sound o w a) (hrec : Recordable w a)
    (heases : a.eases param = false) (hstep : step o sanitize w a = some w') :
  Streak o param (k + (if a.worsens param then 1 else 0)) w'
  := by
  cases hstep
  cases a with
  | propose other proposed reason signal confirmed now =>
    exact hstreak.keeps (propose_keeps param)
  | observe ns signal confirmed now => exact hstreak.keeps (observe_keeps param)
  | validate other worsened signal now =>
    by_cases hother : other = param
    · subst hother
      cases worsened with
      | true =>
        simp only [Action.worsens, decide_true, if_true]
        exact validate_streak hplain hrem hon hstreak (hsound rfl) hrec
      | false => simp [Action.eases] at heases
    have hworsens : Action.worsens param (.validate other worsened signal now) = false := by
      cases worsened with
      | true => exact decide_eq_false hother
      | false => rfl
    rw [hworsens]
    exact hstreak.keeps (validate_keeps (Ne.symm hother))
  | write record => exact hstreak.keeps (written_keeps param w record)

/-- A run counts the times in a row. -/
theorem run_streak (hplain : Plain sanitize) (hon : o.isEnabled param.namespace) {as : List Action}
    (hrem : w.engine.Remembers) (hstreak : Streak o param k w)
    (hguard : Guarded (step o sanitize) (fun w a => Sound o w a ∧ Recordable w a) w as)
    (heases : ∀ a ∈ as, a.eases param = false) (hrun : run (step o sanitize) w as = some w') :
  Streak o param (k + as.countP (Action.worsens param)) w'
  := by
  induction as generalizing k w with
  | nil =>
    cases hrun
    exact hstreak
  | cons a as ih =>
  obtain ⟨v, hstep, hrest⟩ := run_cons_eq_some.mp hrun
  rw [forall_mem_cons] at heases
  have hv := step_streak hplain hrem hon hstreak hguard.1.1 hguard.1.2 heases.1 hstep
  have hrun := ih (step_remembers hrem hstep) hv (hguard.tail hstep) heases.2 hrest
  rw [countP_cons, Nat.add_comm (as.countP _), ← Nat.add_assoc]
  exact hrun

theorem start_remembers (store : Store) :
  (World.start store).engine.Remembers
  := by
  intro param prior hprior
  cases hprior

/-- In every run in which a parameter goes back to a value only from the adjustment persisted, and
only where this value is valid with the others, every record of the context that the engine has the
store append continues from the value persisted and leads to valid values, and is not refused for
that. If from then on the records are not refused for their signals or times either, things getting
worse as many times in a row as is too many stops a parameter that has been adjusted. -/
theorem admitted_of_sound {store : Store} {as : List Action} {w : World}
    (hsound : Guarded (step o sanitize) (Sound o) (World.start store) as)
    (hrun : run (step o sanitize) (World.start store) as = some w) :
  (∀ a ∈ w.attempts, a.Admissible ∧ ∀ refusal, a.store.append sanitize a.record = .error refusal →
        refusal ≠ .continuityMismatch ∧ refusal ≠ .contextBounds) ∧
    (Plain sanitize → ∀ param, o.isEnabled param.namespace →
      (w.restore.engine.last param).isSome → ∀ bs w',
        Guarded (step o sanitize) (fun w a => Sound o w a ∧ Recordable w a) w bs →
          run (step o sanitize) w bs = some w' → (∀ a ∈ bs, a.eases param = false) →
            0 < bs.countP (Action.worsens param) →
              o.worsenStreakLimit ≤ bs.countP (Action.worsens param) → w'.engine.stopped param)
  := by
  have hstart : (World.start store).Admits := forall_mem_nil _
  have hadmits : w.Admits :=
    Guarded.invariant (fun _ _ _ hs hsound hstep => step_admits hs hsound hstep) hstart hsound hrun
  constructor
  · intro a ha
    use hadmits a ha
    intro refusal href
    exact (hadmits a ha).refusal href
  intro hplain param hon hlast bs w' hguard hrun' heases hpos hlimit
  have hrem : w.engine.Remembers :=
    run_invariant (fun _ _ _ hs hstep => step_remembers hs hstep) (start_remembers store) hrun
  have hstreak : Streak o param 0 w :=
    ⟨hlast, Nat.zero_le _, fun h => absurd h (lt_irrefl 0), fun h => absurd h (lt_irrefl 0)⟩
  have hend := run_streak hplain hon hrem hstreak hguard heases hrun'
  rw [Nat.zero_add] at hend
  have hres := hend.restored hpos
  have hstop := hend.stopped hpos (le_trans hlimit hend.worsen)
  rw [restore_of_restored hres] at hstop
  exact hstop

/-! ### An adjustment rolled back a second time -/

/-- A store without records. -/
def emptyStore : Store where
  histories := fun _ => []
  audit := []
  future := fun _ => false

/-- The ratio aimed at is to be a half. -/
def proposeHalf : Action :=
  .propose (.context .targetRatio) (1 / 2) "reason" [] true 0

/-- Things have got worse. -/
def worsened : Action :=
  .validate (.context .targetRatio) true [] 0

/-- Things getting worse three times in a row, after one adjustment: the second time the engine has
the store append a record that does not continue from the value persisted, and the parameter is not
stopped. -/
theorem not_admitted :
  (¬ ∀ (store : Store) (as : List Action) (w : World),
      run (step Options.default id) (World.start store) as = some w →
        ∀ a ∈ w.attempts, a.Admissible) ∧
    ¬ ∀ (store : Store) (as bs : List Action) (w w' : World),
        run (step Options.default id) (World.start store) as = some w →
          (w.restore.engine.last (.context .targetRatio)).isSome →
            run (step Options.default id) w bs = some w' →
              (∀ a ∈ bs, a.eases (.context .targetRatio) = false) →
                Options.default.worsenStreakLimit ≤
                    bs.countP (Action.worsens (.context .targetRatio)) →
                  w'.engine.stopped (.context .targetRatio)
  := by
  constructor
  · intro h
    have hrun : (run (step Options.default id) (World.start emptyStore)
        [proposeHalf, worsened, worsened]).any (fun w => w.attempts.any fun a =>
          decide (a.record.param = .context .targetRatio) &&
            !decide (a.record.before = a.store.current .targetRatio)) := by
      decide +kernel
    obtain ⟨w, hw, hany⟩ := (Option.any_eq_true _ _).mp hrun
    obtain ⟨a, ha, hnot⟩ := any_eq_true.mp hany
    rw [Bool.and_eq_true, decide_eq_true_eq, Bool.not_eq_true', decide_eq_false_iff_not] at hnot
    exact hnot.2 (h emptyStore _ w hw a ha .targetRatio hnot.1).1
  intro h
  have hrun : (run (step Options.default id) (World.start emptyStore) [proposeHalf]).any (fun w =>
      (w.restore.engine.last (.context .targetRatio)).isSome &&
        (run (step Options.default id) w [worsened, worsened, worsened]).any fun w' =>
          !w'.engine.stopped (.context .targetRatio)) := by
    decide +kernel
  obtain ⟨w, hw, hany⟩ := (Option.any_eq_true _ _).mp hrun
  rw [Bool.and_eq_true] at hany
  obtain ⟨w', hw', hnot⟩ := (Option.any_eq_true _ _).mp hany.2
  have hstop := h emptyStore _ _ w w' hw hany.1 hw' (by decide) (by decide)
  rw [hstop] at hnot
  cases hnot

/-- Three adjustments, each of which is rolled back before the next one, stop the parameter. -/
theorem admitted_of_sound_alternating :
  ∃ w w' : World, run (step Options.default id) (World.start emptyStore) [proposeHalf] = some w ∧
    run (step Options.default id) w [worsened, proposeHalf, worsened, proposeHalf, worsened] = some w' ∧
      (∀ a ∈ w.attempts, a.Admissible) ∧ w'.engine.stopped (.context .targetRatio)
  := by
  have hsound : Guarded (step Options.default id) (Sound Options.default) (World.start emptyStore)
      [proposeHalf] := by
    decide +kernel
  have hrun : (run (step Options.default id) (World.start emptyStore) [proposeHalf]).any (fun w =>
      (w.restore.engine.last (.context .targetRatio)).isSome &&
        (decide (Guarded (step Options.default id) (fun w a => Sound Options.default w a ∧ Recordable w a)
          w [worsened, proposeHalf, worsened, proposeHalf, worsened]) &&
            (run (step Options.default id) w
              [worsened, proposeHalf, worsened, proposeHalf, worsened]).isSome)) := by
    decide +kernel
  obtain ⟨w, hw, hany⟩ := (Option.any_eq_true _ _).mp hrun
  rw [Bool.and_eq_true, Bool.and_eq_true, decide_eq_true_eq] at hany
  obtain ⟨hlast, hguard, hsome⟩ := hany
  obtain ⟨w', hw'⟩ := Option.isSome_iff_exists.mp hsome
  have hplain : Plain (id : String → String) := ⟨rfl, rfl⟩
  obtain ⟨hadm, hstops⟩ := admitted_of_sound hsound hw
  refine ⟨w, w', hw, hw', fun a ha => (hadm a ha).1, ?_⟩
  exact hstops hplain (.context .targetRatio) (by decide) hlast _ w' hguard hw' (by decide)
    (by decide) (by decide)

end EvolutionEngine

end Core
