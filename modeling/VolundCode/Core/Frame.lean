import VolundCode.Core.Runner

/-!
# What the runner leaves alone

Most of the code of the runner says nothing that a replay of its events reads: it leaves the
conversation, the turns and the usage of the session as they are, and the events it emits are
those of streams, tools, routers and errors. Such code stays within every relation that ignores
these changes (`Ignores`). The code that does speak is the start and the end of a turn, the end
of a stream and the results of tools.
-/

namespace Core

open ProviderKit Effect

/-! ### The rules of single effects -/

section Rules

variable {env : Externals} {Q : Unit → Runner → Prop} {E : String → Runner → Prop} {r : Runner}

@[simp]
theorem wp_update {recipe : SessionState → SessionState} :
  wp (update recipe) Q E r ↔ Q () { r with state := updateSession r.state recipe }
  := Iff.rfl

@[simp]
theorem wp_setLocals {f : Locals → Locals} :
  wp (setLocals f) Q E r ↔ Q () { r with locals := f r.locals }
  := Iff.rfl

@[simp]
theorem wp_append {m : Message} :
  wp (append m) Q E r ↔
    Q () { r with state := updateSession r.state fun s => { s with messages := s.messages ++ [m] } }
  := Iff.rfl

@[simp]
theorem wp_drawId {Q : String → Runner → Prop} :
  wp (drawId env) Q E r ↔ Q (env.uuidv7 r.drawn) { r with drawn := r.drawn + 1 }
  := Iff.rfl

/-- An event is on the bus if its payload conforms, and is thrown back otherwise. -/
@[simp]
theorem wp_emit {now : ℤ} {payload : Payload} :
  wp (emit env now payload) Q E r ↔
    if payload.conforms then Q () (r.record env now payload) else E (env.violation payload) r
  := by
  rw [emit, wp_bind, wp_get, wp_ite]
  rfl

/-- An event whose payload conforms is on the bus. -/
theorem wp_emit_of_conforms {now : ℤ} {payload : Payload} (h : payload.conforms) :
  wp (emit env now payload) Q E r ↔ Q () (r.record env now payload)
  := by
  rw [wp_emit, if_pos h]

end Rules

/-! ### Code that says nothing to a replay -/

/-- A replay does not read the event. -/
def Payload.neutral : Payload → Bool
  | .sessionStarted _ _ _ => false
  | .sessionModelChanged _ => false
  | .turnStarted _ _ _ => false
  | .turnCompleted _ _ _ => false
  | .turnAborted _ _ => false
  | .messageAppended _ _ _ => false
  | _ => true

/-- A change of variables that leaves the turn and what it used as they are. -/
def Incidental (f : Locals → Locals) : Prop :=
  ∀ l, (f l).turnId = l.turnId ∧ (f l).turnUsage = l.turnUsage

/-- A relation between runners that does not see ids being drawn, neutral events that conform, the
signal, the system prompt, and variables other than the turn and what it used. -/
structure Ignores (env : Externals) (R : Runner → Runner → Prop) : Prop extends
    IsPreorder Runner R where
  draw : ∀ r, R r { r with drawn := r.drawn + 1 }
  record : ∀ r now payload, payload.conforms → payload.neutral → R r (r.record env now payload)
  locals : ∀ r f, Incidental f → R r { r with locals := f r.locals }
  prompt : ∀ r system, R r
    { r with
      state := updateSession r.state fun s => { s with systemPromptSnapshot := some system } }
  signal : ∀ r, R r { r with aborted := true }

namespace Ignores

variable {env : Externals} {options : RunnerOptions} {R : Runner → Runner → Prop}
  (hR : Ignores env R) {now : ℤ}
include hR

theorem emit_within {payload : Payload} (h : payload.neutral) :
  Within R (emit env now payload)
  := by
  have := hR.toIsPreorder
  intro r
  rw [wp_emit]
  split
  · next hconf => apply hR.record r now payload hconf h
  · apply refl_of R

theorem drawId_within :
  Within R (drawId env)
  := fun r => hR.draw r

theorem setLocals_within {f : Locals → Locals} (h : Incidental f) :
  Within R (setLocals f)
  := fun r => hR.locals r f h

theorem fail_within (reason : AbortReason) :
  Within R (fail reason)
  := hR.setLocals_within (by intro l; exact ⟨rfl, rfl⟩)

theorem caught_within (error : String) :
  Within R (caught env now error)
  := by
  have := hR.toIsPreorder
  apply Within.bind (hR.fail_within _)
  intro _
  apply Within.bind Within.get
  intro r
  apply Within.bind (hR.emit_within rfl)
  intro _
  apply Within.pure

theorem chooseDecision_within (picked : Except String RouterDecision) :
  Within R (chooseDecision picked)
  := by
  have := hR.toIsPreorder
  apply Within.bind Within.get
  intro r
  dsimp only
  split
  · apply Within.pure
  · split
    · apply Within.pure
    · apply Within.ofExcept

/-- The head of the loop says nothing to a replay, up to a compaction. -/
theorem beginPass_within {picked : Except String RouterDecision}
    {composed : Except String String} {compaction : Option (Except String Compaction)}
    (hcomp : ∀ c ∈ compaction, Within R (applyCompaction env now c)) :
  Within R (beginPass env options now picked composed compaction)
  := by
  have := hR.toIsPreorder
  apply Within.bind Within.get
  intro r
  split
  · apply Within.pure
  split
  · apply Within.bind (hR.emit_within rfl)
    intro _
    apply Within.bind (hR.setLocals_within (by intro l; exact ⟨rfl, rfl⟩))
    intro _
    apply Within.bind (Within.modify hR.signal)
    intro _
    apply Within.pure
  split
  · apply Within.bind (hR.emit_within rfl)
    intro _
    apply Within.pure
  apply Within.bind (hR.setLocals_within (by intro l; exact ⟨rfl, rfl⟩))
  intro _
  apply Within.bind (hR.chooseDecision_within picked)
  intro decision
  apply Within.bind (hR.setLocals_within (by intro l; exact ⟨rfl, rfl⟩))
  intro _
  apply Within.bind (Within.ofExcept composed)
  intro system
  apply Within.bind
  · apply Within.modify
    intro s
    split
    · apply refl_of R
    · apply hR.prompt
  intro _
  apply Within.bind (Within.forM fun c hc => hcomp c (Option.mem_toList.mp hc))
  intro _
  apply Within.bind hR.drawId_within
  intro messageId
  apply Within.bind (hR.emit_within rfl)
  intro _
  apply Within.pure

/-- An interruption of the stream says nothing to a replay. -/
theorem interrupted_within {reason : String} {answer : Except String (Option RouterDecision)}
    {decision : RouterDecision} {current : InProgress} :
  Within R (interrupted env now reason answer decision current)
  := by
  have := hR.toIsPreorder
  apply Within.bind (hR.emit_within rfl)
  intro _
  split
  · apply Within.bind (hR.fail_within _)
    intro _
    apply Within.bind (hR.emit_within rfl)
    intro _
    apply Within.pure
  apply Within.bind (hR.setLocals_within (by intro l; exact ⟨rfl, rfl⟩))
  intro _
  apply Within.bind (Within.ofExcept answer)
  intro next
  split
  · apply Within.bind (hR.fail_within _)
    intro _
    apply Within.pure
  apply Within.bind Within.get
  intro r
  split
  · apply Within.bind (hR.fail_within _)
    intro _
    apply Within.bind (hR.emit_within rfl)
    intro _
    apply Within.pure
  split
  · apply Within.bind (hR.emit_within rfl)
    intro _
    apply Within.bind (hR.setLocals_within (by intro l; exact ⟨rfl, rfl⟩))
    intro _
    apply Within.pure
  · apply Within.bind (hR.setLocals_within (by intro l; exact ⟨rfl, rfl⟩))
    intro _
    apply Within.pure

theorem stick_within {provider : ProviderClient} (chunk : ProviderChunk) :
  Within R (stick provider chunk)
  := by
  have := hR.toIsPreorder
  rw [stick.eq_def]
  split
  · apply hR.setLocals_within (by intro l; exact ⟨rfl, rfl⟩)
  · apply Within.pure

/-- A chunk says nothing to a replay. -/
theorem receive_within {chunk : ProviderChunk} {answer : Except String (Option RouterDecision)}
    {messageId : String} {decision : RouterDecision} {current : InProgress} :
  Within R (receive env now chunk answer messageId decision current)
  := by
  have := hR.toIsPreorder
  apply Within.bind Within.get
  intro r
  split
  · apply Within.pure
  split
  · apply hR.interrupted_within
  apply Within.bind (hR.stick_within _)
  intro _
  apply Within.bind (Within.forM fun fragment _ => hR.emit_within rfl)
  intro _
  apply Within.pure

/-- The start of the tools says nothing to a replay. -/
theorem startTools_within {toolUses : List ToolUse} {current : InProgress} :
  Within R (startTools env now toolUses current)
  := by
  have := hR.toIsPreorder
  rw [startTools]
  split
  · apply Within.pure
  apply Within.bind (hR.setLocals_within (by intro l; exact ⟨rfl, rfl⟩))
  intro _
  apply Within.bind (Within.forM fun tool _ => hR.emit_within rfl)
  intro _
  apply Within.bind (Within.forM fun tool _ => hR.emit_within rfl)
  intro _
  apply Within.pure

end Ignores

/-! ### Steps -/

/-- Where code that leaves `run` on an error leaves the runner. -/
theorem Runner.leave_of_wp {I : Runner → Prop} {r : Runner} {code : Code Phase}
    (h : wp code (fun phase t => I { t with phase := phase })
      (fun _ t => I { t with phase := .idle }) r) :
  I (r.leave code)
  := by
  unfold wp at h
  unfold Runner.leave
  split
  all_goals
    next heq =>
      rw [heq] at h
      apply h

/-- Where code of the loop leaves the runner. -/
theorem Runner.attempt_of_wp {env : Externals} {now : ℤ} {I : Runner → Prop} {r : Runner}
    {code : Code Phase} (h : wp code (fun phase t => I { t with phase := phase })
      (fun e t => I (t.leave (caught env now e))) r) :
  I (r.attempt env now code)
  := by
  unfold wp at h
  unfold Runner.attempt
  split
  all_goals
    next heq =>
      rw [heq] at h
      apply h

/-- The moves of the runner: what can happen where it waits, and where that leads. -/
inductive Move (env : Externals) (options : RunnerOptions) (r : Runner) : Action → Runner → Prop
  | run {input : List ContentPart} {now : ℤ} (h : r.phase = .idle) :
    Move env options r (.run input now) (r.leave (beginTurn env options input now))
  | interrupt : Move env options r .interrupt r.interrupt
  | pass {picked : Except String RouterDecision} {composed : Except String String}
      {compaction : Option (Except String Compaction)} {now : ℤ} (h : r.phase = .looping) :
    Move env options r (.pass picked composed compaction now)
      (r.attempt env now (beginPass env options now picked composed compaction))
  | chunk {chunk : ProviderChunk} {answer : Except String (Option RouterDecision)} {now : ℤ}
      {messageId : String} {decision : RouterDecision} {current : InProgress}
      (h : r.phase = .streaming messageId decision current) :
    Move env options r (.chunk chunk answer now)
      (r.attempt env now (receive env now chunk answer messageId decision current))
  | streamEnd {onSuccess : Except String Unit} {now : ℤ} {messageId : String}
      {decision : RouterDecision} {current : InProgress}
      (h : r.phase = .streaming messageId decision current) :
    Move env options r (.streamEnd onSuccess now)
      (r.attempt env now (endStream env now onSuccess messageId decision current))
  | streamError {error : String} {now : ℤ} {messageId : String} {decision : RouterDecision}
      {current : InProgress} (h : r.phase = .streaming messageId decision current) :
    Move env options r (.streamError error now) (r.leave (caught env now error))
  | toolsEnd {outcome : String → Except String Settled} {now : ℤ} {toolUses : List ToolUse}
      {startedAt : ℤ} {current : InProgress}
      (h : r.phase = .executing toolUses startedAt current) :
    Move env options r (.toolsEnd outcome now)
      (r.attempt env now (endTools env now outcome toolUses startedAt current))
  | settle {now : ℤ} (h : r.phase = .closing) :
    Move env options r (.settle now) (r.leave (endTurn env options now))

/-- Every step of the runner is one of its moves. -/
theorem move_of_step {env : Externals} {options : RunnerOptions} {r t : Runner} {a : Action}
    (h : step env options r a = some t) :
  Move env options r a t
  := by
  unfold step at h
  split at h
  · split at h
    · rename_i hphase
      cases h
      apply Move.run hphase
    · cases h
  · cases h
    apply Move.interrupt
  · split at h
    · rename_i hphase
      cases h
      apply Move.pass hphase
    · cases h
  · split at h
    · rename_i hphase
      cases h
      apply Move.chunk hphase
    · cases h
  · split at h
    · rename_i hphase
      cases h
      apply Move.streamEnd hphase
    · cases h
  · split at h
    · rename_i hphase
      cases h
      apply Move.streamError hphase
    · cases h
  · split at h
    · rename_i hphase
      cases h
      apply Move.toolsEnd hphase
    · cases h
  split at h
  · rename_i hphase
    cases h
    apply Move.settle hphase
  · cases h

/-! ### Where the code leads -/

section Results

variable {env : Externals} {options : RunnerOptions} {now : ℤ}

/-- The head of the loop leads past the loop or to the start of a stream. -/
theorem beginPass_returns {picked : Except String RouterDecision}
    {composed : Except String String} {compaction : Option (Except String Compaction)} :
  Returns (fun phase => phase = .closing ∨
      ∃ n decision, phase = .streaming (env.uuidv7 n) decision .empty)
    (beginPass env options now picked composed compaction)
  := by
  apply Returns.bind
  intro r
  split
  · apply Returns.pure
    left
    rfl
  split
  · apply Returns.bind
    intro _
    apply Returns.bind
    intro _
    apply Returns.bind
    intro _
    apply Returns.pure
    left
    rfl
  split
  · apply Returns.bind
    intro _
    apply Returns.pure
    left
    rfl
  apply Returns.bind
  intro _
  apply Returns.bind
  intro decision
  apply Returns.bind
  intro _
  apply Returns.bind
  intro system
  apply Returns.bind
  intro _
  apply Returns.bind
  intro _
  apply Returns.bind_of (O := fun id => ∃ n, id = env.uuidv7 n)
  · intro s
    use s.drawn
  rintro _ ⟨n, rfl⟩
  apply Returns.bind
  intro _
  apply Returns.pure
  right
  use n, decision

variable {current : InProgress}

/-- An interruption of the stream leads past the loop or to its head. -/
theorem interrupted_returns {reason : String} {answer : Except String (Option RouterDecision)}
    {decision : RouterDecision} :
  Returns (fun phase => phase = .closing ∨ phase = .looping)
    (interrupted env now reason answer decision current)
  := by
  apply Returns.bind
  intro _
  split
  · apply Returns.bind
    intro _
    apply Returns.bind
    intro _
    apply Returns.pure
    left
    rfl
  apply Returns.bind
  intro _
  apply Returns.bind
  intro next
  split
  · apply Returns.bind
    intro _
    apply Returns.pure
    left
    rfl
  apply Returns.bind
  intro r
  split
  · apply Returns.bind
    intro _
    apply Returns.bind
    intro _
    apply Returns.pure
    left
    rfl
  split
  · apply Returns.bind
    intro _
    apply Returns.bind
    intro _
    apply Returns.pure
    right
    rfl
  apply Returns.bind
  intro _
  apply Returns.pure
  right
  rfl

/-- A chunk leads past the loop, to its head, or on in the stream. -/
theorem receive_returns {chunk : ProviderChunk} {answer : Except String (Option RouterDecision)}
    {messageId : String} {decision : RouterDecision} {current : InProgress} :
  Returns (fun phase => phase = .closing ∨ phase = .looping ∨
      phase = .streaming messageId decision (merge current chunk))
    (receive env now chunk answer messageId decision current)
  := by
  apply Returns.bind
  intro r
  split
  · apply Returns.pure
    left
    rfl
  split
  · intro s
    apply Effect.wp_mono (interrupted_returns s)
    · rintro phase _ (h | h)
      · left
        apply h
      · right
        left
        apply h
    · intro _ _ h
      apply h
  apply Returns.bind
  intro _
  apply Returns.bind
  intro _
  apply Returns.pure
  right
  right
  rfl

/-- Catching an error does not fail. -/
theorem caught_succeeds {error : String} :
  Succeeds (caught env now error)
  := by
  apply Succeeds.bind (Succeeds.modify _)
  intro _
  apply Succeeds.bind Succeeds.get
  intro r
  apply Succeeds.bind
  · intro s
    rw [wp_emit_of_conforms rfl]
    exact True.intro
  · intro _
    apply Succeeds.pure

/-- What the loop throws is caught past it. -/
theorem caught_returns {error : String} :
  Returns (fun phase => phase = .closing) (caught env now error)
  := by
  apply Returns.bind
  intro _
  apply Returns.bind
  intro r
  apply Returns.bind
  intro _
  apply Returns.pure
  rfl

/-- The tools of a message start if it has any. -/
theorem startTools_returns {toolUses : List ToolUse} :
  Returns (fun phase => toolUses = [] ∧ phase = .closing ∨
      toolUses ≠ [] ∧ phase = .executing toolUses now current)
    (startTools env now toolUses current)
  := by
  rw [startTools]
  split
  · rename_i h
    apply Returns.pure
    left
    use List.isEmpty_iff.mp h
  rename_i h
  apply Returns.bind
  intro _
  apply Returns.bind
  intro _
  apply Returns.bind
  intro _
  apply Returns.pure
  right
  use fun hnil => h (List.isEmpty_iff.mpr hnil)

/-- The start of a turn leads to its loop. -/
theorem beginTurn_returns {input : List ContentPart} :
  Returns (fun phase => phase = .looping) (beginTurn env options input now)
  := by
  apply Returns.bind
  intro _
  apply Returns.bind
  intro _
  apply Returns.bind
  intro _
  apply Returns.bind
  intro _
  apply Returns.bind
  intro _
  apply Returns.bind
  intro _
  apply Returns.pure
  rfl

/-- The tools lead back to the head of the loop. -/
theorem endTools_returns {outcome : String → Except String Settled} {toolUses : List ToolUse}
    {startedAt : ℤ} {current : InProgress} :
  Returns (fun phase => phase = .looping) (endTools env now outcome toolUses startedAt current)
  := by
  apply Returns.bind
  intro _
  apply Returns.bind
  intro _
  apply Returns.pure
  rfl

/-- Code of the loop leads past it where it throws. -/
theorem attempt_returns {r : Runner} {P : Phase → Prop} {code : Code Phase} (h : Returns P code) :
  P (r.attempt env now code).phase ∨ (r.attempt env now code).phase = .closing
  := by
  apply Runner.attempt_of_wp (I := fun t => P t.phase ∨ t.phase = .closing)
  apply wp_mono (h r)
  · intro _ _ hphase
    left
    apply hphase
  intro e t _
  apply Runner.leave_of_wp (I := fun t => P t.phase ∨ t.phase = .closing)
  apply caught_succeeds.wp (E := fun _ _ => True)
  apply wp_mono (caught_returns t)
  · intro _ _ hphase
    right
    apply hphase
  · intro _ _ _
    exact True.intro

/-- Code outside of the loop ends the run where it throws. -/
theorem leave_returns {r : Runner} {P : Phase → Prop} {code : Code Phase} (h : Returns P code) :
  P (r.leave code).phase ∨ (r.leave code).phase = .idle
  := by
  apply Runner.leave_of_wp (I := fun t => P t.phase ∨ t.phase = .idle)
  apply wp_mono (h r)
  · intro _ _ hphase
    left
    apply hphase
  · intro _ _ _
    right
    rfl

end Results

end Core
