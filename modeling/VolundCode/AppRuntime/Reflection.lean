import VolundCode.Lib.Run
import Mathlib.Tactic

/-!
# Reflection

The controller has a model look back at the session, and adds the lessons that it draws to the notes
for the turns to come. A run is cut at its waits: for the listeners of the bus, the router, the
stream of the model and the memory. Only one run is under way, and a turn that starts aborts it.

The tokens of a run are counted when it ends with lessons, and only then: the budget is kept in the
runs in which every other one has cost nothing (`counted_of_costless`). A run can be aborted from the
moment it has something to reflect on until it has drawn its lessons, and a turn that starts before
or after that does not stop it (`spared_of_abortable`).
-/

namespace AppRuntime.Reflection

open Run List Or

/-! ### The controller -/

inductive ReflectionTrigger where
  | onError
  | onCompact
  | everyNTurns
  | manual
  deriving DecidableEq

inductive ReflectionSkipReason where
  | budgetExhausted
  | disabled
  | noNewContent
  | preempted
  | duplicate
  | cooldown
  deriving DecidableEq

structure ReflectionConfig where
  enabled : Bool
  onError : Bool
  onCompact : Bool
  everyNTurns : ℕ
  cooldownSeconds : ℕ
  sessionTokenBudget : ℕ
  /-- `runBudget.timeMsMax` is given. -/
  timed : Bool
  /-- Lessons are saved to the memory by themselves. -/
  autoPromote : Bool

inductive Confidence where
  | low
  | medium
  | high
  deriving DecidableEq

structure ReflectionLesson where
  id : String
  title : String
  body : String
  tags : List String
  confidence : Confidence
  evidenceTurnIds : List String
  deriving DecidableEq

/-- What the model answers, if it keeps to the contract. -/
structure ReflectionOutput where
  lessons : List ReflectionLesson
  promptNote : Option String
  deriving DecidableEq

structure Usage where
  input : ℕ
  output : ℕ
  deriving DecidableEq

/-- What a run waits for. It ends when it has reported why it has no lessons; `guarded` runs release
their abort controller then, and `cooled` ones begin the cooldown. -/
inductive RunPhase where
  | scheduled
  | picking
  | started
  | streaming
  | ending (guarded cooled : Bool)
  | completing
  | promoting
  deriving DecidableEq

structure ReflectionRun where
  id : ℕ
  trigger : ReflectionTrigger
  turnIds : List String
  phase : RunPhase
  aborted : Bool
  usage : Option Usage
  deriving DecidableEq

/-- The tokens that the provider has reported for the run. -/
def ReflectionRun.tokens (run : ReflectionRun) : ℕ :=
  match run.usage with
  | none => 0
  | some usage => usage.input + usage.output

/-- The controller, with what has happened around it: the tokens reported for the runs whose streams
have ended, the runs during which a turn has started, those that have changed the notes, and those
after which it was told that they have changed. -/
structure ReflectionController where
  attached : Bool
  sessionEnabled : Bool
  lessons : List ReflectionLesson
  promptNote : Option String
  triggeredKeys : List (String × ReflectionTrigger)
  errorTurnIds : List String
  turnsSincePeriodic : ℕ
  budgetUsed : ℕ
  lastCompletedAt : Option ℤ
  lastReflectedMessageCount : Option ℕ
  /-- The run that is under way. -/
  inFlight : Option ReflectionRun
  /-- The run whose abort controller is kept. -/
  runAbort : Option ℕ
  runs : ℕ
  reported : ℕ
  disturbed : List ℕ
  noted : List ℕ
  notified : List ℕ
  deriving DecidableEq

def ReflectionController.start : ReflectionController where
  attached := true
  sessionEnabled := true
  lessons := []
  promptNote := none
  triggeredKeys := []
  errorTurnIds := []
  turnsSincePeriodic := 0
  budgetUsed := 0
  lastCompletedAt := none
  lastReflectedMessageCount := none
  inFlight := none
  runAbort := none
  runs := 0
  reported := 0
  disturbed := []
  noted := []
  notified := []

/-- `TRIGGERED_KEY_LIMIT`. -/
def triggeredKeyLimit : ℕ := 200

/-- `LESSON_RING_LIMIT`. -/
def lessonRingLimit : ℕ := 20

/-- The list with something new at its end, and without its first element if it is too long. -/
def pushed {α : Type} (limit : ℕ) (l : List α) (a : α) : List α :=
  if limit < l.length + 1 then (l ++ [a]).tail else l ++ [a]

/-! ### Triggers -/

section Triggers

variable (config : ReflectionConfig) (c : ReflectionController)

/-- Why no run is started, if none is. `messages` is how many messages the session has. -/
def ReflectionController.skipReason (trigger : ReflectionTrigger) (turnId : String)
    (bypassCooldown : Bool) (messages : ℕ) (now : ℤ) : Option ReflectionSkipReason :=
  if c.inFlight.isSome then some .duplicate
  else if !(config.enabled && c.sessionEnabled) then some .disabled
  else if config.sessionTokenBudget ≤ c.budgetUsed then some .budgetExhausted
  else if (turnId, trigger) ∈ c.triggeredKeys then some .duplicate
  else if !bypassCooldown && c.lastCompletedAt.any fun t =>
      decide (now - t < config.cooldownSeconds * 1000) then some .cooldown
  else if messages = 0 ∨ c.lastReflectedMessageCount = some messages then some .noNewContent
  else none

/-- `#schedule`. -/
def ReflectionController.schedule (trigger : ReflectionTrigger) (turnId : String)
    (bypassCooldown : Bool) (messages : ℕ) (now : ℤ) : ReflectionController :=
  match c.skipReason config trigger turnId bypassCooldown messages now with
  | some _ => c
  | none =>
    { c with
      triggeredKeys := pushed triggeredKeyLimit c.triggeredKeys (turnId, trigger)
      runs := c.runs + 1
      inFlight := some
        { id := c.runs
          trigger := trigger
          turnIds := []
          phase := .scheduled
          aborted := false
          usage := none } }

/-- A trigger other than the manual one is looked at only if reflection is enabled. -/
def ReflectionController.auto (trigger : ReflectionTrigger) (turnId : String) (messages : ℕ)
    (now : ℤ) : ReflectionController :=
  if config.enabled && c.sessionEnabled then c.schedule config trigger turnId false messages now
  else c

/-- `this.#runAbort?.abort()`. -/
def ReflectionController.abort : ReflectionController :=
  { c with
    inFlight := c.inFlight.map fun run =>
      if c.runAbort = some run.id then { run with aborted := true } else run }

inductive SessionEvent where
  | turnStarted
  | toolCompleted (turnId : String) (isError : Bool)
  | errorRaised (turnId : String)
  | contextCompacted (turnId : String)
  | turnCompleted (turnId : String)
  | turnAborted (turnId : String) (byError : Bool)
  deriving DecidableEq

/-- `#onEvent`. -/
def ReflectionController.onEvent (messages : ℕ) (now : ℤ) :
    SessionEvent → ReflectionController
  | .turnStarted => c.abort
  | .toolCompleted turnId isError =>
    if isError ∧ turnId ≠ "" then { c with errorTurnIds := turnId :: c.errorTurnIds } else c
  | .errorRaised turnId =>
    if turnId ≠ "" then { c with errorTurnIds := turnId :: c.errorTurnIds } else c
  | .contextCompacted turnId =>
    if config.onCompact ∧ turnId ≠ "" then c.auto config .onCompact turnId messages now else c
  | .turnCompleted turnId =>
    let counted := { c with turnsSincePeriodic := c.turnsSincePeriodic + 1 }
    if turnId ∈ counted.errorTurnIds then
      let known := { counted with errorTurnIds := counted.errorTurnIds.filter (· ≠ turnId) }
      if config.onError then known.auto config .onError turnId messages now else known
    else if 0 < config.everyNTurns ∧ config.everyNTurns ≤ counted.turnsSincePeriodic ∧
        turnId ≠ "" then counted.auto config .everyNTurns turnId messages now
    else counted
  | .turnAborted turnId byError =>
    if byError ∧ turnId ≠ "" ∧ config.onError then c.auto config .onError turnId messages now else c

end Triggers

/-! ### Runs of the model -/

section Answers

variable (config : ReflectionConfig) (c : ReflectionController) (run : ReflectionRun)

/-- What a run that waits is told. -/
inductive Answer where
  /-- The event has been delivered, or the lessons have been saved. -/
  | delivered (now : ℤ)
  /-- A listener has thrown. -/
  | rejected
  /-- The run has been announced: the turns that there is a digest of, if there is any. -/
  | digested (turnIds : Option (List String))
  | picked
  | unavailable
  | usage (usage : Usage)
  /-- The stream has ended, with an error or with what could be read of the output. -/
  | streamed (error : Bool) (output : Option ReflectionOutput) (messages : ℕ) (now : ℤ)
  deriving DecidableEq

/-- The run waits for something else. -/
def ReflectionController.goTo (phase : RunPhase) : ReflectionController :=
  { c with inFlight := some { run with phase := phase } }

/-- The run is over. -/
def ReflectionController.finish (guarded : Bool) : ReflectionController :=
  { c with
    inFlight := none
    runAbort := if guarded ∧ c.runAbort = some run.id then none else c.runAbort }

/-- The run is over and has drawn lessons. -/
def ReflectionController.succeed : ReflectionController :=
  let done := c.finish run true
  if run.trigger = .everyNTurns then { done with turnsSincePeriodic := 0 } else done

/-- The lessons whose evidence is in the digest, if they name any. -/
def ReflectionRun.lessonsOf (output : ReflectionOutput) : List ReflectionLesson :=
  output.lessons.filterMap fun lesson =>
    let evidence := lesson.evidenceTurnIds.filter run.turnIds.contains
    if lesson.evidenceTurnIds ≠ [] ∧ evidence = [] then none
    else some { lesson with evidenceTurnIds := evidence }

/-- The output keeps to the contract and has lessons. -/
def usable (output : Option ReflectionOutput) : Option ReflectionOutput :=
  output.filter fun output => output.lessons ≠ []

/-- What the run does with the output: its tokens are counted, and the notes are changed. -/
def ReflectionController.reflect (output : ReflectionOutput) (messages : ℕ) (now : ℤ) :
    ReflectionController :=
  { c with
    budgetUsed := c.budgetUsed + run.tokens
    lastCompletedAt := some now
    lastReflectedMessageCount := some messages
    promptNote := output.promptNote
    lessons := (run.lessonsOf output).foldl (pushed lessonRingLimit) c.lessons
    noted := run.id :: c.noted }

/-- The stream has ended. -/
def ReflectionController.onStreamed (error : Bool) (output : Option ReflectionOutput)
    (messages : ℕ) (now : ℤ) : ReflectionController :=
  let c := { c with reported := c.reported + run.tokens }
  if run.aborted ∨ error then c.goTo run (.ending true false)
  else
    match usable output with
    | none => c.goTo run (.ending true true)
    | some output => (c.reflect run output messages now).goTo run .completing

/-- `#execute`, from one wait to the next. -/
def ReflectionController.advance : RunPhase → Answer → Option ReflectionController
  | .scheduled, .digested none => some (c.goTo run (.ending false false))
  | .scheduled, .digested (some turnIds) =>
    some { c.goTo { run with turnIds := turnIds } .picking with runAbort := some run.id }
  | .scheduled, .rejected => some (c.finish run false)
  | .picking, .picked => some (c.goTo run .started)
  | .picking, .unavailable => some (c.goTo run (.ending false false))
  | .started, .delivered _ => some (c.goTo run .streaming)
  | .started, .rejected => some (c.finish run false)
  | .streaming, .usage usage => some (c.goTo { run with usage := some usage } .streaming)
  | .streaming, .streamed error output messages now =>
    some (c.onStreamed run error output messages now)
  | .ending guarded cooled, .delivered now =>
    let done := c.finish run guarded
    some (if cooled then { done with lastCompletedAt := some now } else done)
  | .ending guarded _, .rejected => some (c.finish run guarded)
  | .completing, .delivered _ =>
    let told := { c with notified := run.id :: c.notified }
    some (if config.autoPromote then told.goTo run .promoting else told.succeed run)
  | .completing, .rejected => some (c.finish run true)
  | .promoting, .delivered _ => some (c.succeed run)
  | _, _ => none

end Answers

/-- What happens to the controller. -/
inductive Action where
  | event (event : SessionEvent) (messages : ℕ) (now : ℤ)
  | runNow (turnId : String) (messages : ℕ) (now : ℤ)
  | setSessionEnabled (value : Bool)
  | attach
  | dispose
  | remove (id : String)
  | clear
  | answer (answer : Answer)
  | timeout
  deriving DecidableEq

section Steps

variable (config : ReflectionConfig)

/-- A turn starts, whether the controller hears of it or not. -/
def ReflectionController.disturb (c : ReflectionController) : SessionEvent → ReflectionController
  | .turnStarted => { c with disturbed := c.inFlight.toList.map ReflectionRun.id ++ c.disturbed }
  | _ => c

/-- The controller after something has happened, if it can happen. -/
def step (c : ReflectionController) : Action → Option ReflectionController
  | .event event messages now =>
    some (if c.attached then (c.disturb event).onEvent config messages now event
      else c.disturb event)
  | .runNow turnId messages now => some (c.schedule config .manual turnId true messages now)
  | .setSessionEnabled value => some { c with sessionEnabled := value }
  | .attach => some { c with attached := true }
  | .dispose => some { c.abort with attached := false }
  | .remove id => some { c with lessons := c.lessons.eraseP fun lesson => lesson.id = id }
  | .clear => some { c with lessons := [], promptNote := none }
  | .answer answer => c.inFlight.bind fun run => c.advance config run run.phase answer
  | .timeout =>
    match c.inFlight with
    | some run =>
      if config.timed ∧ run.phase = .streaming then
        some { c with inFlight := some { run with aborted := true } }
      else none
    | none => none

end Steps

/-! ### What a trigger does -/

/-- The controller but for what decides which runs are started, and for its notes. -/
def ReflectionController.core (c : ReflectionController) : ReflectionController :=
  { ReflectionController.start with
    budgetUsed := c.budgetUsed
    inFlight := c.inFlight
    runAbort := c.runAbort
    runs := c.runs
    reported := c.reported
    disturbed := c.disturbed
    noted := c.noted
    notified := c.notified }

section Triggered

variable {config : ReflectionConfig} {c : ReflectionController} {messages : ℕ} {now : ℤ}
  {trigger : ReflectionTrigger} {turnId : String}

/-- Nothing has happened to the runs, or one has been started within the budget while none was under
way. -/
def Triggers (config : ReflectionConfig) (c t : ReflectionController) : Prop :=
  t = c ∨ c.inFlight = none ∧ c.budgetUsed < config.sessionTokenBudget ∧
    ∃ run : ReflectionRun, run.id = c.runs ∧ run.phase = .scheduled ∧
      t = { c with runs := c.runs + 1, inFlight := some run }

theorem triggers_schedule {bypassCooldown : Bool} :
  Triggers config c.core (c.schedule config trigger turnId bypassCooldown messages now).core
  := by
  unfold ReflectionController.schedule
  cases hreason : c.skipReason config trigger turnId bypassCooldown messages now with
  | some reason =>
    left
    rfl
  | none =>
  right
  unfold ReflectionController.skipReason at hreason
  split_ifs at hreason with hflight hon hbudget
  refine ⟨?_, Nat.lt_of_not_le hbudget, _, rfl, rfl, rfl⟩
  apply Option.not_isSome_iff_eq_none.mp hflight

theorem triggers_auto :
  Triggers config c.core (c.auto config trigger turnId messages now).core
  := by
  unfold ReflectionController.auto
  split
  · apply triggers_schedule
  · left
    rfl

/-- An event other than the start of a turn starts a run, or does not touch the runs. -/
theorem triggers_onEvent {event : SessionEvent} (hevent : event ≠ .turnStarted) :
  Triggers config c.core (c.onEvent config messages now event).core
  := by
  have hauto (d : ReflectionController) (hd : d.core = c.core) (trigger : ReflectionTrigger)
      (turnId : String) :
      Triggers config c.core (d.auto config trigger turnId messages now).core := by
    rw [← hd]
    apply triggers_auto
  cases event with
  | turnStarted => exact absurd rfl hevent
  | _ =>
    simp only [ReflectionController.onEvent]
    split_ifs
    all_goals first | exact inl rfl | (apply hauto; rfl)

end Triggered

/-! ### Spending -/

/-- A run that ends without lessons has cost nothing. -/
def costless (c : ReflectionController) : Action → Bool
  | .answer (.streamed error output _ _) =>
    c.inFlight.all fun run =>
      run.tokens = 0 || (!run.aborted && !error && (usable output).isSome)
  | _ => true

/-- The budget counts what has been reported, and a run is only started if less has been reported
than it allows. -/
structure Counted (config : ReflectionConfig) (c : ReflectionController) : Prop where
  counted : c.budgetUsed = c.reported
  capped : ∀ a t, step config c a = some t → t.runs ≠ c.runs →
    c.reported < config.sessionTokenBudget

section Steps

variable {config : ReflectionConfig} {c t : ReflectionController} {a : Action}

/-- Nothing has happened to the runs, or the one that is under way has been aborted. -/
def Aborts (c t : ReflectionController) : Prop :=
  t = c ∨ ∃ run : ReflectionRun, c.inFlight = some run ∧
    t = { c with inFlight := some { run with aborted := true } }

theorem aborts_abort :
  Aborts c.core c.abort.core
  := by
  cases hrun : c.inFlight with
  | none =>
    left
    simp [ReflectionController.core, ReflectionController.abort, hrun]
  | some run =>
  by_cases hkept : c.runAbort = some run.id
  · right
    use run, hrun
    simp [ReflectionController.core, ReflectionController.abort, hrun, hkept]
  · left
    simp [ReflectionController.core, ReflectionController.abort, hrun, hkept]

/-- A step lets a run go on, it tells of a turn that starts, it is another trigger, or it leaves the
runs alone but for an abort. -/
theorem step_cases (h : step config c a = some t) :
  (∃ answer run, a = .answer answer ∧ c.inFlight = some run ∧
      c.advance config run run.phase answer = some t) ∨
    (∃ messages now, a = .event .turnStarted messages now ∧
      t = if c.attached then (c.disturb .turnStarted).abort else c.disturb .turnStarted) ∨
    Triggers config c.core t.core ∨ Aborts c.core t.core
  := by
  cases a with
  | event event messages now =>
    right
    cases h
    by_cases hevent : event = .turnStarted
    · left
      subst hevent
      use messages, now, rfl
      rfl
    right
    left
    have hsame : c.disturb event = c := by
      cases event with
      | turnStarted => exact absurd rfl hevent
      | _ => rfl
    rw [hsame]
    split
    · apply triggers_onEvent hevent
    · exact inl rfl
  | runNow turnId messages now =>
    right; right; left
    cases h
    apply triggers_schedule
  | setSessionEnabled | attach | remove | clear =>
    right; right; left
    cases h
    exact inl rfl
  | dispose =>
    right; right; right
    cases h
    exact aborts_abort
  | answer answer =>
    left
    obtain ⟨run, hrun, hadv⟩ := Option.bind_eq_some_iff.mp h
    use answer, run, rfl, hrun
  | timeout =>
  right; right; right
  unfold step at h
  dsimp only at h
  split at h
  · rename_i run hrun
    split_ifs at h
    cases h
    exact inr ⟨run, hrun, rfl⟩
  · cases h

/-- The tokens that are counted and those that have been reported, and how many runs there are. -/
def ReflectionController.counts (c : ReflectionController) : ℕ × ℕ × ℕ :=
  (c.budgetUsed, c.reported, c.runs)

theorem streamed_of_advance {run : ReflectionRun} {phase : RunPhase} {error : Bool}
    {output : Option ReflectionOutput} {messages : ℕ} {now : ℤ}
    (h : c.advance config run phase (.streamed error output messages now) = some t) :
  phase = .streaming ∧ t = c.onStreamed run error output messages now
  := by
  cases phase with
  | streaming => exact ⟨rfl, (Option.some.inj h).symm⟩
  | _ => cases h

/-- Except for the end of its stream a run leaves the counts as they are. -/
theorem counts_of_advance {run : ReflectionRun} {phase : RunPhase} {answer : Answer}
    (h : c.advance config run phase answer = some t)
    (hanswer : ∀ error output messages now, answer ≠ .streamed error output messages now) :
  t.counts = c.counts
  := by
  have hsucceed (d : ReflectionController) : (d.succeed run).counts = d.counts := by
    unfold ReflectionController.succeed
    split
    all_goals rfl
  unfold ReflectionController.advance at h
  split at h
  case h_9 error output messages now => exact absurd rfl (hanswer error output messages now)
  all_goals cases h
  all_goals first | rfl | apply hsucceed | (split; all_goals first | rfl | apply hsucceed)

theorem counts_onStreamed {run : ReflectionRun} {error : Bool} {output : Option ReflectionOutput}
    {messages : ℕ} {now : ℤ} :
  (c.onStreamed run error output messages now).counts =
    (if run.aborted = false ∧ error = false ∧ (usable output).isSome then
        c.budgetUsed + run.tokens
      else c.budgetUsed, c.reported + run.tokens, c.runs)
  := by
  unfold ReflectionController.onStreamed
  cases run.aborted with
  | true => rfl
  | false =>
  cases error with
  | true => rfl
  | false =>
    cases usable output with
    | none | some output => rfl

/-- What a step does to the counts, unless a stream ends. -/
theorem step_counts (h : step config c a = some t) :
  (∃ run error output messages now, a = .answer (.streamed error output messages now) ∧
      c.inFlight = some run ∧ t = c.onStreamed run error output messages now) ∨
    t.budgetUsed = c.budgetUsed ∧ t.reported = c.reported ∧
      (t.runs = c.runs ∨ c.budgetUsed < config.sessionTokenBudget)
  := by
  have hsame {d e : ReflectionController} (hd : d.counts = e.counts) :
      d.budgetUsed = e.budgetUsed ∧ d.reported = e.reported ∧
        (d.runs = e.runs ∨ e.budgetUsed < config.sessionTokenBudget) := by
    simp only [ReflectionController.counts, Prod.mk.injEq] at hd
    exact ⟨hd.1, hd.2.1, inl hd.2.2⟩
  have hcore {d : ReflectionController} (hd : t.core = d) (hcounts : d.counts = c.counts) :
      t.counts = c.counts := by
    rw [← hcounts, ← hd]
    rfl
  rcases step_cases h with ⟨answer, run, rfl, hrun, hadv⟩ | ⟨messages, now, rfl, rfl⟩ |
    htriggers | haborts
  · by_cases hstreamed : ∃ error output messages now, answer = .streamed error output messages now
    · left
      obtain ⟨error, output, messages, now, rfl⟩ := hstreamed
      exact ⟨run, error, output, messages, now, rfl, hrun, (streamed_of_advance hadv).2⟩
    right
    apply hsame
    apply counts_of_advance hadv
    intro error output messages now heq
    exact hstreamed ⟨error, output, messages, now, heq⟩
  · right
    apply hsame
    split
    all_goals rfl
  · right
    rcases htriggers with hkept | ⟨-, haff, run, -, -, hstart⟩
    · apply hsame (hcore hkept rfl)
    · refine ⟨?_, ?_, inr haff⟩
      · exact congrArg (fun d => d.budgetUsed) hstart
      · exact congrArg (fun d => d.reported) hstart
  right
  apply hsame
  rcases haborts with hkept | ⟨run, -, habort⟩
  · apply hcore hkept rfl
  · apply hcore habort rfl

/-- A step whose run costs nothing or draws lessons keeps the count. -/
theorem counted_step (hcount : c.budgetUsed = c.reported) (hok : costless c a)
    (h : step config c a = some t) :
  t.budgetUsed = t.reported
  := by
  rcases step_counts h with ⟨run, error, output, messages, now, rfl, hrun, rfl⟩ |
    ⟨hbudget, hreported, -⟩
  · rw [costless, hrun, Option.all_some, Bool.or_eq_true, decide_eq_true_eq] at hok
    have hcounts : (c.onStreamed run error output messages now).counts = _ := counts_onStreamed
    simp only [ReflectionController.counts, Prod.mk.injEq] at hcounts
    rw [hcounts.1, hcounts.2.1, hcount]
    rcases hok with hnone | hdrawn
    · simp [hnone]
    · apply if_pos
      simpa [and_assoc] using hdrawn
  · rw [hbudget, hreported, hcount]

end Steps

/-- In a run in which every reflection that ends without lessons has cost nothing, the budget counts
what has been reported, and none is started once that has reached it. -/
theorem counted_of_costless (config : ReflectionConfig) {actions : List Action}
    {c : ReflectionController}
    (hok : Guarded (step config) (fun c a => costless c a) .start actions)
    (hrun : run (step config) .start actions = some c) :
  Counted config c
  := by
  have hcount : c.budgetUsed = c.reported := by
    apply Guarded.invariant (I := fun c => c.budgetUsed = c.reported) _ rfl hok hrun
    intro c a t h hok hstep
    apply counted_step h hok hstep
  constructor
  · exact hcount
  intro a t hstep hruns
  rw [← hcount]
  rcases step_counts hstep with ⟨run, error, output, messages, now, -, -, rfl⟩ | ⟨-, -, hstart⟩
  · apply absurd _ hruns
    have hcounts : (c.onStreamed run error output messages now).counts = _ := counts_onStreamed
    exact congrArg (fun counts => counts.2.2) hcounts
  · apply hstart.resolve_left hruns

/-! ### Turns that start -/

/-- The run can be aborted. -/
def RunPhase.live : RunPhase → Bool
  | .picking | .started | .streaming => true
  | _ => false

/-- The run has given up. -/
def RunPhase.over : RunPhase → Bool
  | .ending _ _ => true
  | _ => false

/-- The run has drawn its lessons. -/
def RunPhase.drawn : RunPhase → Bool
  | .completing | .promoting => true
  | _ => false

/-- A turn starts only while the run that is under way can be aborted, or is aborted already, or has
given up. -/
def abortable (c : ReflectionController) : Action → Bool
  | .event .turnStarted _ _ =>
    c.inFlight.all fun run =>
      run.phase.over || (run.phase.live && (c.attached || run.aborted))
  | _ => true

/-- A run during which a turn has started has not changed the notes, nor told that they have
changed. -/
def Spared (c : ReflectionController) : Prop :=
  ∀ id ∈ c.disturbed, id ∉ c.noted ∧ id ∉ c.notified

/-- What holds of the run that is under way. -/
structure Fit (c : ReflectionController) (run : ReflectionRun) : Prop where
  known : run.id < c.runs
  silent : run.phase.drawn = false → run.id ∉ c.noted ∧ run.id ∉ c.notified
  kept : run.phase.live → c.runAbort = some run.id ∧ (run.id ∈ c.disturbed → run.aborted)
  undisturbed : run.id ∈ c.disturbed → run.phase.live ∨ run.phase.over

/-- The runs that something is known of have been started, and the one under way is fit. -/
structure Inv (c : ReflectionController) : Prop where
  known : ∀ id, id ∈ c.disturbed ∨ id ∈ c.noted ∨ id ∈ c.notified → id < c.runs
  flight : ∀ run, c.inFlight = some run → Fit c run
  spared : Spared c

section Steps

variable {config : ReflectionConfig} {c t : ReflectionController} {a : Action}
  {run : ReflectionRun}

theorem inv_core :
  Inv c.core ↔ Inv c
  := by
  constructor
  all_goals
    intro h
    use h.known, fun run hrun => ?_, h.spared
    obtain ⟨hknown, hsil, hkept, hcalm⟩ := h.flight run hrun
    use hknown, hsil, hkept, hcalm

theorem Inv.triggers (h : Inv c) (ht : Triggers config c t) :
  Inv t
  := by
  rcases ht with rfl | ⟨-, -, run, hid, hphase, rfl⟩
  · exact h
  have hnew : ¬ (run.id ∈ c.disturbed ∨ run.id ∈ c.noted ∨ run.id ∈ c.notified) := by
    intro hmem
    have hlt := h.known run.id hmem
    omega
  rw [not_or, not_or] at hnew
  refine ⟨fun id hid => Nat.lt_succ_of_lt (h.known id hid), ?_, h.spared⟩
  intro other hother
  cases hother
  refine ⟨?_, fun _ => hnew.2, ?_, fun hmem => absurd hmem hnew.1⟩
  · change run.id < c.runs + 1
    omega
  · intro hlive
    rw [hphase] at hlive
    cases hlive

theorem Inv.aborts (h : Inv c) (ht : Aborts c t) :
  Inv t
  := by
  rcases ht with rfl | ⟨run, hrun, rfl⟩
  · exact h
  use h.known, fun other hother => ?_, h.spared
  cases hother
  obtain ⟨hknown, hsil, hkept, hcalm⟩ := h.flight run hrun
  exact ⟨hknown, hsil, fun hlive => ⟨(hkept hlive).1, fun _ => rfl⟩, hcalm⟩

/-- Runs that are over leave nothing to be kept. -/
theorem Inv.idle (h : Inv c) (hidle : t.inFlight = none) (hruns : t.runs = c.runs)
    (hdist : t.disturbed = c.disturbed) (hnoted : t.noted = c.noted)
    (hnotif : t.notified = c.notified) :
  Inv t
  := by
  refine ⟨?_, fun run hrun => ?_, ?_⟩
  · rw [hdist, hnoted, hnotif, hruns]
    exact h.known
  · rw [hidle] at hrun
    cases hrun
  · rw [Spared, hdist, hnoted, hnotif]
    exact h.spared

/-- A run goes on without having drawn lessons. -/
theorem Inv.goTo (h : Inv c) (hrun : c.inFlight = some run) (hdrawn : run.phase.drawn = false)
    {phase : RunPhase} (hlive : phase.live → run.phase.live)
    (hphase : phase.live ∨ phase.over) {turnIds : List String} {usage : Option Usage} :
  Inv (c.goTo { run with turnIds := turnIds, usage := usage } phase)
  := by
  use h.known, fun other hother => ?_, h.spared
  cases hother
  obtain ⟨hknown, hsil, hkept, -⟩ := h.flight run hrun
  exact ⟨hknown, fun _ => hsil hdrawn, fun hnow => hkept (hlive hnow), fun _ => hphase⟩

/-- Lessons are drawn by a run during which no turn has started. -/
theorem Inv.draws (h : Inv c) (hrun : c.inFlight = some run) (other : ReflectionRun)
    (hcalm : run.id ∉ c.disturbed) (hid : other.id = run.id)
    (hdrawn : other.phase.drawn) (hflight : ∀ r, t.inFlight = some r → r = other)
    (hruns : t.runs = c.runs) (hdist : t.disturbed = c.disturbed)
    (hnoted : t.noted ⊆ run.id :: c.noted) (hnotif : t.notified ⊆ run.id :: c.notified) :
  Inv t
  := by
  have hknown := (h.flight run hrun).known
  constructor
  · intro id hid'
    rw [hruns]
    rw [hdist] at hid'
    rcases hid' with hmem | hmem | hmem
    · exact h.known id (inl hmem)
    · rcases mem_cons.mp (hnoted hmem) with rfl | hold
      · exact hknown
      · exact h.known id (inr (inl hold))
    · rcases mem_cons.mp (hnotif hmem) with rfl | hold
      · exact hknown
      · exact h.known id (inr (inr hold))
  · intro r hr
    obtain rfl := hflight r hr
    constructor
    · rw [hid, hruns]
      exact hknown
    · intro hnot
      rw [hdrawn] at hnot
      cases hnot
    · intro hlive
      cases hphase : r.phase with
      | completing | promoting =>
        rw [hphase] at hlive
        cases hlive
      | _ =>
        rw [hphase] at hdrawn
        cases hdrawn
    · rw [hid, hdist]
      intro hmem
      exact absurd hmem hcalm
  intro id hmem
  rw [hdist] at hmem
  have hne : id ≠ run.id := by
    rintro rfl
    exact hcalm hmem
  obtain ⟨hsil, hquiet⟩ := h.spared id hmem
  constructor
  · intro hnow
    exact hsil (mem_of_ne_of_mem hne (hnoted hnow))
  · intro hnow
    exact hquiet (mem_of_ne_of_mem hne (hnotif hnow))

theorem Inv.onStreamed (h : Inv c) (hrun : c.inFlight = some run)
    (hphase : run.phase = .streaming) {error : Bool} {output : Option ReflectionOutput}
    {messages : ℕ} {now : ℤ} :
  Inv (c.onStreamed run error output messages now)
  := by
  have hending (cooled : Bool) : Inv (ReflectionController.goTo
      { c with reported := c.reported + run.tokens } run (.ending true cooled)) := by
    have hgo : Inv (c.goTo run (.ending true cooled)) := by
      apply h.goTo hrun _ _ (inr rfl)
      · rw [hphase]
        rfl
      · intro hlive
        cases hlive
    exact ⟨hgo.known, fun r hr => ⟨(hgo.flight r hr).known, (hgo.flight r hr).silent,
      (hgo.flight r hr).kept, (hgo.flight r hr).undisturbed⟩, hgo.spared⟩
  unfold ReflectionController.onStreamed
  dsimp only
  split
  · exact hending false
  rename_i hends
  split
  · exact hending true
  rw [not_or, Bool.not_eq_true] at hends
  apply h.draws hrun { run with phase := .completing } _ rfl rfl
  · intro r hr
    exact (Option.some.inj hr).symm
  · rfl
  · rfl
  · exact List.Subset.refl _
  · exact List.subset_cons_self _ _
  intro hmem
  have habort := ((h.flight run hrun).kept (by rw [hphase]; rfl)).2 hmem
  rw [hends.1] at habort
  cases habort

theorem Inv.advance (h : Inv c) (hrun : c.inFlight = some run) {answer : Answer}
    (hadv : c.advance config run run.phase answer = some t) :
  Inv t
  := by
  have hfit : Fit c run := h.flight run hrun
  have hsucceed (d : ReflectionController) : (d.succeed run).inFlight = none ∧
      (d.succeed run).runs = d.runs ∧ (d.succeed run).disturbed = d.disturbed ∧
      (d.succeed run).noted = d.noted ∧ (d.succeed run).notified = d.notified := by
    unfold ReflectionController.succeed
    split
    all_goals exact ⟨rfl, rfl, rfl, rfl, rfl⟩
  have hcalm (hlive : run.phase.live = false) (hover : run.phase.over = false) :
      run.id ∉ c.disturbed := by
    intro hmem
    have hphase := hfit.undisturbed hmem
    rw [hlive, hover] at hphase
    rcases hphase with hphase | hphase
    all_goals cases hphase
  unfold ReflectionController.advance at hadv
  split at hadv
  all_goals cases hadv
  case h_2 turnIds hphase =>
    use h.known, fun other hother => ?_, h.spared
    cases hother
    refine ⟨hfit.known, fun _ => ?_, fun _ => ⟨rfl, fun hmem => ?_⟩, fun _ => inl rfl⟩
    · apply hfit.silent
      rw [hphase]
      rfl
    apply absurd hmem
    apply hcalm
    all_goals
      rw [hphase]
      rfl
  case h_9 hphase => exact h.onStreamed hrun hphase
  case h_10 =>
    split
    all_goals exact h.idle rfl rfl rfl rfl rfl
  case h_12 hphase =>
    have hnot : run.id ∉ c.disturbed := by
      apply hcalm
      all_goals
        rw [hphase]
        rfl
    split
    · apply h.draws hrun { run with phase := .promoting } hnot rfl rfl
      · intro r hr
        exact (Option.some.inj hr).symm
      · rfl
      · rfl
      · exact List.subset_cons_self _ _
      · exact List.Subset.refl _
    obtain ⟨hidle, hruns, hdist, hnoted, hnotif⟩ :=
      hsucceed { c with notified := run.id :: c.notified }
    apply h.draws hrun { run with phase := .promoting } hnot rfl rfl
    · intro r hr
      rw [hidle] at hr
      cases hr
    · exact hruns
    · exact hdist
    · rw [hnoted]
      exact List.subset_cons_self _ _
    · rw [hnotif]
      exact List.Subset.refl _
  case h_14 =>
    obtain ⟨hidle, hruns, hdist, hnoted, hnotif⟩ := hsucceed c
    exact h.idle hidle hruns hdist hnoted hnotif
  all_goals first
    | exact h.idle rfl rfl rfl rfl rfl
    | next hphase =>
      apply h.goTo hrun
      · rw [hphase]
        rfl
      · rw [hphase]
        decide
      · decide

/-- A turn that starts while the run under way is abortable leaves it aborted, or over. -/
theorem Inv.disturb (h : Inv c) {messages : ℕ} {now : ℤ}
    (hok : abortable c (.event .turnStarted messages now)) :
  Inv (if c.attached then (c.disturb .turnStarted).abort else c.disturb .turnStarted)
  := by
  rw [abortable] at hok
  cases hrun : c.inFlight with
  | none =>
    have hidle : Inv (c.disturb .turnStarted) := by
      apply h.idle (t := c.disturb .turnStarted) hrun rfl _ rfl rfl
      simp [ReflectionController.disturb, hrun]
    split
    · exact inv_core.mp ((inv_core.mpr hidle).aborts aborts_abort)
    · exact hidle
  | some run =>
  obtain ⟨hknown, hsil, hkept, -⟩ := h.flight run hrun
  rw [hrun, Option.all_some, Bool.or_eq_true, Bool.and_eq_true, Bool.or_eq_true] at hok
  have hphase : run.phase.live ∨ run.phase.over := hok.elim inr fun hlive => inl hlive.1
  have hnot : run.phase.drawn = false := by
    cases hnow : run.phase with
    | completing | promoting => simp [hnow, RunPhase.live, RunPhase.over] at hphase
    | _ => rfl
  have hlater (run' : ReflectionRun) (hid : run'.id = run.id) (hsame : run'.phase = run.phase)
      (haborted : run.phase.live → run'.aborted) :
      Inv { c with inFlight := some run', disturbed := run.id :: c.disturbed } := by
    refine ⟨fun id hid' => ?_, fun other hother => ?_, fun id hid' => ?_⟩
    · rw [mem_cons, or_assoc] at hid'
      rcases hid' with rfl | hmem
      · exact hknown
      · exact h.known id hmem
    · cases hother
      rw [← hid] at hknown hsil hkept
      rw [← hsame] at hsil hkept haborted hphase
      exact ⟨hknown, hsil, fun hlive => ⟨(hkept hlive).1, fun _ => haborted hlive⟩,
        fun _ => hphase⟩
    · rcases mem_cons.mp hid' with rfl | hmem
      · exact hsil hnot
      · exact h.spared id hmem
  have hdisturb : c.disturb .turnStarted =
      { c with disturbed := run.id :: c.disturbed } := by
    simp [ReflectionController.disturb, hrun]
  split
  · by_cases hkeeps : c.runAbort = some run.id
    · have habort : (c.disturb .turnStarted).abort = { c with
          inFlight := some { run with aborted := true }
          disturbed := run.id :: c.disturbed } := by
        simp [hdisturb, ReflectionController.abort, hrun, hkeeps]
      rw [habort]
      exact hlater { run with aborted := true } rfl rfl fun _ => rfl
    have habort : (c.disturb .turnStarted).abort = { c with
        inFlight := some run
        disturbed := run.id :: c.disturbed } := by
      simp [hdisturb, ReflectionController.abort, hrun, hkeeps]
    rw [habort]
    exact hlater run rfl rfl fun hlive => absurd (hkept hlive).1 hkeeps
  rename_i hdetached
  have hsame : c.disturb .turnStarted = { c with
      inFlight := some run
      disturbed := run.id :: c.disturbed } := by
    rw [hdisturb, ← hrun]
  rw [hsame]
  apply hlater run rfl rfl
  intro hlive
  rcases hok with hover | ⟨-, hattached | haborted⟩
  · cases hnow : run.phase with
    | _ => simp [hnow, RunPhase.live, RunPhase.over] at hlive hover
  · exact absurd hattached hdetached
  · exact haborted

/-- A step keeps the invariant if turns only start while the run under way is abortable. -/
theorem Inv.step (h : Inv c) (hok : abortable c a) (hstep : step config c a = some t) :
  Inv t
  := by
  rcases step_cases hstep with ⟨answer, run, rfl, hrun, hadv⟩ | ⟨messages, now, rfl, rfl⟩ |
    htriggers | haborts
  · exact h.advance hrun hadv
  · exact h.disturb hok
  · exact inv_core.mp ((inv_core.mpr h).triggers htriggers)
  · exact inv_core.mp ((inv_core.mpr h).aborts haborts)

end Steps

/-- In a run in which turns only start while the reflection under way can be aborted, a reflection
during which a turn starts changes no notes. -/
theorem spared_of_abortable (config : ReflectionConfig) {actions : List Action}
    {c : ReflectionController}
    (hok : Guarded (step config) (fun c a => abortable c a) .start actions)
    (hrun : run (step config) .start actions = some c) :
  Spared c
  := by
  have hstart : Inv .start := by
    refine ⟨fun id hid => ?_, fun run hrun => ?_, fun id hid => ?_⟩
    · simp [ReflectionController.start] at hid
    · cases hrun
    · cases hid
  have hinv : Inv c := by
    apply Guarded.invariant _ hstart hok hrun
    intro c a t h hok hstep
    apply h.step hok hstep
  apply hinv.spared

/-! ### A reflection on three messages -/

/-- Reflection is on, with a budget of ten tokens. -/
def sampleConfig : ReflectionConfig where
  enabled := true
  onError := true
  onCompact := false
  everyNTurns := 0
  cooldownSeconds := 0
  sessionTokenBudget := 10
  timed := false
  autoPromote := false

/-- One lesson without evidence. -/
def sampleOutput : ReflectionOutput where
  lessons :=
    [{ id := "look-first", title := "Look first", body := "Read the file before it is edited."
       tags := [], confidence := .high, evidenceTurnIds := [] }]
  promptNote := none

/-- A reflection up to the end of its stream. -/
def streamedWith (output : Option ReflectionOutput) : List Action :=
  [.runNow "turn" 3 0, .answer (.digested (some ["turn"])), .answer .picked,
    .answer (.delivered 0), .answer (.usage ⟨8, 4⟩), .answer (.streamed false output 3 1)]

theorem counted_of_costless_drawn :
  ∃ c, run (step sampleConfig) .start (streamedWith (some sampleOutput)) = some c ∧
    Counted sampleConfig c
  := by
  have hok : Guarded (step sampleConfig) (fun c a => costless c a) .start
      (streamedWith (some sampleOutput)) := by decide
  exact ⟨_, rfl, counted_of_costless sampleConfig hok rfl⟩

/-- The output cannot be used: twelve tokens are gone, and the next reflection is started. -/
theorem not_counted :
  ∃ c, run (step sampleConfig) .start (streamedWith none ++ [.answer (.delivered 2)]) = some c ∧
    ¬ Counted sampleConfig c
  := by
  refine ⟨_, rfl, fun h => ?_⟩
  cases h.counted

theorem spared_of_abortable_streaming :
  ∃ c, run (step sampleConfig) .start
      ((streamedWith none).take 4 ++ [.event .turnStarted 3 1]) = some c ∧ Spared c
  := by
  have hok : Guarded (step sampleConfig) (fun c a => abortable c a) .start
      ((streamedWith none).take 4 ++ [.event .turnStarted 3 1]) := by decide
  exact ⟨_, rfl, spared_of_abortable sampleConfig hok rfl⟩

/-- A turn starts while the bus delivers that the reflection is scheduled, or while it delivers that
it is completed. In both cases the lessons are added and the change of the notes is announced. -/
theorem not_spared :
  (∃ c, run (step sampleConfig) .start
      ((streamedWith none).take 1 ++ [.event .turnStarted 3 0] ++
        (streamedWith (some sampleOutput)).drop 1 ++ [.answer (.delivered 2)]) = some c ∧
      ¬ Spared c) ∧
    ∃ c, run (step sampleConfig) .start
      (streamedWith (some sampleOutput) ++
        [.event .turnStarted 3 1, .answer (.delivered 2)]) = some c ∧ ¬ Spared c
  := by
  constructor
  all_goals
    refine ⟨_, rfl, fun h => ?_⟩
    apply (h 0 (by decide)).1
    decide

end AppRuntime.Reflection
