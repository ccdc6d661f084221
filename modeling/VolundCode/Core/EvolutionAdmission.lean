import VolundCode.Core.EvolutionEngine

/-!
# Records that are admitted

A record of the context that the engine has the store append is admissible when it continues from
the value persisted and leads to valid values. All records are, in every run in which an adjustment
is rolled back only while it is the one persisted, and a parameter goes back to a value only where
this is valid with the others (`step_admits`). The store then refuses no record for that
(`Attempt.Admissible.refusal`).
-/

namespace Core

namespace EvolutionEngine

open Run Evolution Storage.EvolutionStore
open Storage.EvolutionStore (Refusal decodes decodesSignal decodesValue decodesReason clean)

/-! ### Admissible records -/

/-- A record of the context continues from the value persisted and leads to valid values. -/
def Attempt.Admissible (a : Attempt) : Prop :=
  ∀ p, a.record.param = .context p →
    a.record.before = a.store.current p ∧ Valid (Function.update a.store.current p a.record.after)

variable (o : Options)

/-- Where what is proposed is rejected, the default is valid with the other values. -/
def restorable (w : World) (param : Param) (proposed : ℚ) (confirmed : Bool) : Bool :=
  !o.isEnabled param.namespace || w.restore.engine.stopped param ||
    match param, consider o w.store param proposed confirmed with
    | .context p, .rejected _ defaultValue =>
      isValidContextTuningSnapshot (Function.update w.store.current p defaultValue)
    | _, _ => true

/-- The last adjustment is the one persisted, and the value before it is valid with the others. -/
def reversible (w : World) (param : Param) : Bool :=
  !o.isEnabled param.namespace ||
    match param, w.restore.engine.last param with
    | .context p, some prior =>
      decide (w.store.current p = prior.after) &&
        isValidContextTuningSnapshot (Function.update w.store.current p prior.before)
    | _, _ => true

/-- A parameter goes back to a value only from the adjustment persisted, and only where this value is
valid with the others. -/
def Sound (w : World) : Action → Prop
  | .propose param proposed _ _ confirmed _ => restorable o w param proposed confirmed
  | .observe ns signal confirmed _ =>
    ∀ proposal ∈ proposalOf o w ns signal, restorable o w proposal.param proposal.proposed confirmed
  | .validate param worsened _ _ => worsened → reversible o w param
  | .write _ => True

/-- The records of a validation are not refused for their signal or their time. -/
def Recordable (w : World) : Action → Prop
  | .validate param true signal now =>
    decodesSignal signal ∧ w.store.future param.namespace = false ∧
      ∀ previous ∈ (w.store.histories param.namespace).getLast?, previous.1.time ≤ now
  | _ => True

instance Sound.decidable (w : World) : (a : Action) → Decidable (Sound o w a)
  | .propose _ _ _ _ _ _ => inferInstanceAs (Decidable (_ = true))
  | .observe ns signal confirmed _ =>
    inferInstanceAs (Decidable (∀ proposal ∈ proposalOf o w ns signal,
      restorable o w proposal.param proposal.proposed confirmed))
  | .validate _ _ _ _ => inferInstanceAs (Decidable (_ → _))
  | .write _ => isTrue True.intro

instance Recordable.decidable (w : World) : (a : Action) → Decidable (Recordable w a)
  | .validate _ true _ _ => inferInstanceAs (Decidable (_ ∧ _ ∧ _))
  | .validate _ false _ _ | .propose _ _ _ _ _ _ | .observe _ _ _ _ | .write _ => isTrue True.intro

/-! ### What the engine does -/

/-- The values of the context are the persisted ones. -/
theorem contextValues_eq (store : Store) :
  contextValues store = store.current
  := if_pos (current_valid store)

variable {proposed : ℚ} {param : Param} {confirmed : Bool} {before : ℚ}

/-- What is rejected goes from the value of the parameter to its default. -/
theorem consider_rejected {store : Store} {defaultValue : ℚ}
    (h : consider o store param proposed confirmed = .rejected before defaultValue) :
  o.defaultOf param = some defaultValue ∧ before = valueOf store param defaultValue
  := by
  rw [consider] at h
  split at h
  · cases h
  rename_i value hvalue
  dsimp only at h
  split at h
  · cases h
  · split_ifs at h
    obtain ⟨rfl, rfl⟩ := Decision.rejected.inj h
    exact ⟨hvalue, rfl⟩

/-- What is adjusted goes from the value of the parameter to the one aimed at. -/
theorem consider_adjusted {store : Store} {after : ℚ}
    (h : consider o store param proposed confirmed = .adjusted before after) :
  ∃ defaultValue, o.defaultOf param = some defaultValue ∧
    before = valueOf store param defaultValue ∧ target store param before proposed = some after
  := by
  rw [consider] at h
  split at h
  · cases h
  rename_i value hvalue
  dsimp only at h
  split at h
  · cases h
  rename_i target htgt
  split_ifs at h
  obtain ⟨rfl, rfl⟩ := Decision.adjusted.inj h
  exact ⟨value, hvalue, rfl, htgt⟩

variable {p : ContextTunableParam}

/-- What is aimed at for the context is valid with the other values. -/
theorem target_valid {store : Store} {after : ℚ}
    (h : target store (.context p) before proposed = some after) :
  Valid (Function.update store.current p after)
  := by
  rw [target, contextValues_eq] at h
  split_ifs at h with hvalid
  cases h
  exact hvalid

variable {w : World}

/-- The default to which a parameter goes back is valid with the other values. -/
theorem valid_of_restorable {defaultValue : ℚ}
    (hsound : restorable o w (.context p) proposed confirmed)
    (hon : o.isEnabled .context) (hstop : w.restore.engine.stopped (.context p) = false)
    (hcons : consider o w.store (.context p) proposed confirmed = .rejected before defaultValue) :
  Valid (Function.update w.store.current p defaultValue)
  := by
  unfold restorable at hsound
  simp only [Param.namespace, hon, hstop, hcons, Bool.not_true, Bool.false_or] at hsound
  exact hsound

/-- The adjustment to roll back is the one persisted, and the value before it is valid with the
others. -/
theorem valid_of_reversible {prior : EvolutionRecord}
    (hsound : reversible o w (.context p)) (hon : o.isEnabled .context)
    (hprior : w.restore.engine.last (.context p) = some prior) :
  w.store.current p = prior.after ∧ Valid (Function.update w.store.current p prior.before)
  := by
  unfold reversible at hsound
  simp only [Param.namespace, hon, hprior, Bool.not_true, Bool.false_or, Bool.and_eq_true,
    decide_eq_true_eq] at hsound
  exact hsound

/-! ### All records are admitted -/

variable {o} {sanitize : String → String}

/-- Every record so far is admissible. -/
def World.Admits (w : World) : Prop :=
  ∀ a ∈ w.attempts, a.Admissible

theorem attempt_admits {record : EvolutionRecord} (hw : w.Admits)
    (hrec : Attempt.Admissible { store := w.store, record := record }) :
  (w.attempt record).Admits
  := by
  rw [World.Admits, World.attempt, List.forall_mem_append, List.forall_mem_singleton]
  exact ⟨hw, hrec⟩

/-- An admissible record is appended or refused, and what follows has admissible records. -/
theorem appending_admits {record : EvolutionRecord} {rest : World → Result × World}
    (hw : w.Admits) (hrec : Attempt.Admissible { store := w.store, record := record })
    (hrest : ∀ store, w.store.append sanitize record = .ok store →
      ∀ w' : World, w'.store = store → w'.Admits → (rest w').2.Admits) :
  (w.appending sanitize record rest).2.Admits
  := by
  have hatt := attempt_admits hw hrec
  rw [World.appending]
  split
  · next store hstore => exact hrest store hstore _ rfl hatt
  · exact hatt

/-- Restoring has no record appended. -/
theorem restore_store (w : World) :
  w.restore.store = w.store
  := by
  rw [World.restore]
  split_ifs
  · rfl
  · rfl

theorem restore_attempts (w : World) :
  w.restore.attempts = w.attempts
  := by
  rw [World.restore]
  split_ifs
  · rfl
  · rfl

theorem restore_admits (hw : w.Admits) :
  w.restore.Admits
  := by
  rw [World.Admits, restore_attempts]
  exact hw

/-- A proposal is dropped before or after the audit log is read, or it is rejected or followed. -/
theorem propose_cases (o : Options) (sanitize : String → String) (w : World) (param : Param)
    (proposed : ℚ) (reason : String) (signal : Signal) (confirmed : Bool) (now : ℤ) :
  propose o sanitize w param proposed reason signal confirmed now = (.ok none, w) ∧
      (o.isEnabled param.namespace && allowed param) = false ∨
    propose o sanitize w param proposed reason signal confirmed now = (.ok none, w.restore) ∨
    o.isEnabled param.namespace ∧ w.restore.engine.stopped param = false ∧ ((∃ before defaultValue,
          consider o w.store param proposed confirmed = .rejected before defaultValue ∧
          propose o sanitize w param proposed reason signal confirmed now =
            reject sanitize w.restore param before defaultValue reason signal now) ∨
        ∃ before after, consider o w.store param proposed confirmed = .adjusted before after ∧
          propose o sanitize w param proposed reason signal confirmed now =
            adjust sanitize w.restore param before after reason signal now)
  := by
  cases hon : o.isEnabled param.namespace && allowed param with
  | false =>
    left
    simp [propose, hon]
  | true =>
  right
  cases hstop : w.restore.engine.stopped param with
  | true =>
    left
    simp only [propose, hon, hstop, if_true]
  | false =>
  cases hcons : consider o w.store param proposed confirmed with
  | dropped =>
    left
    simp only [propose, hon, hstop, restore_store, hcons, if_true, Bool.false_eq_true, if_false]
  | rejected before defaultValue =>
    right
    refine ⟨(Bool.and_eq_true_iff.mp hon).1, rfl, Or.inl ⟨before, defaultValue, rfl, ?_⟩⟩
    simp only [propose, hon, hstop, restore_store, hcons, if_true, Bool.false_eq_true, if_false]
  | adjusted before after =>
    right
    refine ⟨(Bool.and_eq_true_iff.mp hon).1, rfl, Or.inr ⟨before, after, rfl, ?_⟩⟩
    simp only [propose, hon, hstop, restore_store, hcons, if_true, Bool.false_eq_true, if_false]

variable {signal : Signal} {now : ℤ}

/-- A proposal has admissible records. -/
theorem propose_admits {reason : String} (hw : w.Admits)
    (hsound : restorable o w param proposed confirmed) :
  (propose o sanitize w param proposed reason signal confirmed now).2.Admits
  := by
  rcases propose_cases o sanitize w param proposed reason signal confirmed now with
    ⟨hprop, _⟩ | hprop | ⟨hon, hstop, hcases⟩
  · rw [hprop]
    exact hw
  · rw [hprop]
    exact restore_admits hw
  rcases hcases with ⟨before, defaultValue, hcons, hprop⟩ | ⟨before, after, hcons, hprop⟩
  · rw [hprop, reject]
    apply appending_admits (restore_admits hw)
    · intro p hp
      obtain rfl : param = .context p := hp
      obtain ⟨_, rfl⟩ := consider_rejected o hcons
      rw [restore_store]
      use congrFun (contextValues_eq w.store) p
      exact valid_of_restorable o hsound hon hstop hcons
    · intro store _ w' _ hw'
      exact hw'
  rw [hprop, adjust]
  apply appending_admits (restore_admits hw)
  · intro p hp
    obtain rfl : param = .context p := hp
    obtain ⟨value, _, rfl, htgt⟩ := consider_adjusted o hcons
    rw [restore_store]
    exact ⟨congrFun (contextValues_eq w.store) p, target_valid htgt⟩
  · intro store _ w' _ hw'
    exact hw'

/-- The value of a rolled back adjustment, appended once more, is admissible. -/
theorem stoppedOf_admissible {s t : Store} {prior : EvolutionRecord}
    (hparam : ∀ p, param = .context p → (t.current = Function.update s.current p prior.before)) :
  Attempt.Admissible { store := t, record := stoppedOf prior.before param signal now }
  := by
  intro p hp
  have hcur := hparam p hp
  have hpre : prior.before = t.current p := by
    rw [hcur, Function.update_self]
  refine ⟨hpre, ?_⟩
  change Valid (Function.update t.current p prior.before)
  rw [hpre, Function.update_eq_self]
  exact current_valid t

/-- The values persisted after a record of the context has been appended. -/
theorem append_current {s t : Store} {record : EvolutionRecord}
    (hparam : record.param = .context p) (happ : s.append sanitize record = .ok t) :
  t.current = Function.update s.current p record.after
  := by
  obtain ⟨_, href, hclean, rfl⟩ := (append_ok_iff sanitize).mp happ
  exact current_push hparam href

/-- A validation has admissible records. -/
theorem validate_admits {worsened : Bool}
    (hw : w.Admits) (hsound : worsened → reversible o w param) :
  (validate o sanitize w param worsened signal now).2.Admits
  := by
  rw [validate]
  split_ifs with hon
  · rw [Bool.and_eq_true] at hon
    dsimp only
    split
    · exact restore_admits hw
    · exact restore_admits hw
    rename_i prior hprior
    have hset : (w.restore.setWorsen param (w.restore.engine.worsen param + 1)).Admits :=
      restore_admits hw
    apply appending_admits hset
    · intro p hp
      obtain rfl : param = .context p := hp
      obtain ⟨hcur, hvalid⟩ := valid_of_reversible o (hsound rfl) hon.1 hprior
      change prior.after = w.restore.store.current p ∧
        Valid (Function.update w.restore.store.current p prior.before)
      rw [restore_store]
      exact ⟨hcur.symm, hvalid⟩
    intro store hstore w' hstore' hw'
    split_ifs
    · apply appending_admits (w := w'.stop param) hw'
      · apply stoppedOf_admissible
        intro p hp
        change w'.store.current = _
        rw [hstore']
        exact append_current hp hstore
      · intro _ _ w'' _ hw''
        exact hw''
    · exact hw'
  · exact hw

/-- What is measured does not matter for what is restored. -/
theorem restoreAll_windows (engine : Engine) (windows : Namespace → List Signal)
    (audit : List EvolutionRecord) :
  restoreAll { engine with windows := windows } audit
    = { restoreAll engine audit with windows := windows }
  := by
  induction audit generalizing engine with
  | nil => rfl
  | cons record audit ih =>
  have hrec : restoreRecord { engine with windows := windows } record
      = { restoreRecord engine record with windows := windows } := by
    rw [restoreRecord, restoreRecord]
    split_ifs
    · cases record.action with
      | adjusted | rolledBack | stopped | confirmationRejected => rfl
    · rfl
  simp only [restoreAll, List.foldl_cons] at ih ⊢
  rw [hrec, ih]

theorem restore_setWindow (w : World) (ns : Namespace) (bucket : List Signal) :
  (w.setWindow ns bucket).restore.engine
    = { w.restore.engine with windows := Function.update w.engine.windows ns bucket }
  := by
  rw [World.restore, World.restore, World.setWindow]
  cases hres : w.engine.restored with
  | true => rfl
  | false =>
    simp only [Bool.false_eq_true, if_false]
    rw [restoreAll_windows]

theorem restorable_setWindow (w : World) (ns : Namespace) (bucket : List Signal) (param : Param)
    (proposed : ℚ) (confirmed : Bool) :
  restorable o (w.setWindow ns bucket) param proposed confirmed
    = restorable o w param proposed confirmed
  := by
  unfold restorable
  rw [restore_setWindow]
  rfl

/-- A measurement has admissible records. -/
theorem observe_admits {ns : Namespace} (hw : w.Admits)
    (hsound : ∀ proposal ∈ proposalOf o w ns signal,
      restorable o w proposal.param proposal.proposed confirmed) :
  (observe o sanitize w ns signal confirmed now).2.Admits
  := by
  rw [observe]
  split_ifs
  · exact hw
  · split
    · exact hw
    rename_i proposal hproposal
    have hw' : (w.setWindow ns []).Admits := hw
    apply propose_admits hw'
    rw [restorable_setWindow]
    exact hsound proposal hproposal
  · exact hw

/-- A step that meets the condition has admissible records. -/
theorem step_admits {w' : World} {a : Action} (hw : w.Admits) (hsound : Sound o w a)
    (hstep : step o sanitize w a = some w') :
  w'.Admits
  := by
  cases hstep
  cases a with
  | propose param proposed reason signal confirmed now => exact propose_admits hw hsound
  | observe ns signal confirmed now => exact observe_admits hw hsound
  | validate param worsened signal now => exact validate_admits hw hsound
  | write record =>
  rw [World.after, World.written]
  split
  · exact hw
  · exact hw

/-- An admissible record is not refused for the value it continues from or those it leads to. -/
theorem Attempt.Admissible.refusal {a : Attempt} (h : a.Admissible) {refusal : Refusal}
    (href : a.store.append sanitize a.record = .error refusal) :
  refusal ≠ .continuityMismatch ∧ refusal ≠ .contextBounds
  := by
  rw [Storage.EvolutionStore.State.append] at href
  split_ifs at href
  · cases hwhy : a.store.refusal (clean sanitize a.record) with
    | none =>
      rw [hwhy] at href
      cases href
    | some why =>
      rw [hwhy] at href
      obtain rfl := Except.error.inj href
      rw [Storage.EvolutionStore.State.refusal] at hwhy
      split_ifs at hwhy
      · cases hwhy
        decide
      · cases hwhy
        decide
      split at hwhy
      · rename_i p hp
        obtain ⟨hpre, hvalid⟩ := h p hp
        have hcontinues : ¬(clean sanitize a.record).before ≠ a.store.current p :=
          not_not.mpr hpre
        rw [if_neg hcontinues] at hwhy
        split_ifs at hwhy with hinvalid
        exact absurd hvalid hinvalid
      · cases hwhy
  all_goals
    obtain rfl := Except.error.inj href
    decide

end EvolutionEngine

end Core
