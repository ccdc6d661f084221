import VolundCode.Lib.Ascending
import VolundCode.Lib.Ecma

/-!
# The scheduling core

`evaluateTick` decides which windows of the tasks a tick of the daemon fires, which it takes
for missed and which it skips. The windows of a task follow one another from its cursor
(`computeNextRunAt`); those before the start of the daemon were missed while none was
running, and the task says whether the latest of them is run after all.

`compensated_iff` says when a downtime is compensated exactly once, by a fire for the latest
window missed: when the first tick that reaches a missed window reaches all of them, and
they are not more than a tick enumerates.
-/

namespace Scheduler

open Relation List

/-! ### Tasks -/

/-- A time of day that `HH:MM` can say. -/
structure Hhmm where
  hour : ℕ
  minute : ℕ
  hour_lt : hour < 24
  minute_lt : minute < 60
  deriving DecidableEq, Repr

/-- A schedule that the schema accepts. Sunday is the weekday 0. -/
inductive TaskSchedule where
  | interval (everyMs : ℤ) (min : 60000 ≤ everyMs)
  | daily (at_ : Hhmm)
  | weekly (weekdays : List (Fin 7)) (at_ : Hhmm)
  deriving DecidableEq, Repr

/-- What becomes of windows missed while no daemon was running. -/
inductive MissedRun where
  | skip
  | runLatest
  deriving DecidableEq, Repr

/-- What becomes of a window that is due while a run of the task is in flight. -/
inductive Overlap where
  | skip
  | queue
  deriving DecidableEq, Repr

/-- A task, with the fields that the scheduler and the daemon read. -/
structure TaskDefinition where
  id : String
  name : String
  enabled : Bool
  cwd : String
  schedule : TaskSchedule
  timezone : Option String
  missedRun : MissedRun
  overlap : Overlap
  configHash : Option String
  createdAt : ℤ
  createdAt_pos : 0 < createdAt
  deriving DecidableEq, Repr

/-! ### Wall clocks -/

structure WallClock where
  year : ℤ
  month : ℤ
  day : ℤ
  hour : ℤ
  minute : ℤ
  weekday : ℕ
  deriving DecidableEq, Repr

/-- What is asked of `Intl`: the reading of the clocks of a time zone, and the zone of the
host. -/
structure Intl where
  wallClockAt : ℤ → String → WallClock
  hostTimeZone : String

variable (intl : Intl)

/-- The offset of a time zone from UTC, in whole minutes. -/
def tzOffsetMs (epochMs : ℤ) (timeZone : String) : ℤ :=
  let wall := intl.wallClockAt epochMs timeZone
  let asUtc := Ecma.dateUTC wall.year (wall.month - 1) wall.day wall.hour wall.minute
  asUtc - epochMs / 60000 * 60000

/-- The time of day on the day `dayShift` days after `startDay`, if the weekday is one of
those asked for, the time lies past `afterMs` and the clocks of that day show it. -/
def wallOccurrence (target : Hhmm) (weekdays : Option (List (Fin 7))) (afterMs : ℤ)
    (timeZone : String) (startDay : WallClock) (dayShift : ℕ) : Option ℤ :=
  let day := intl.wallClockAt
    (Ecma.dateUTC startDay.year (startDay.month - 1) (startDay.day + dayShift) 12 0) timeZone
  if weekdays.any (fun ds => ¬ ds.any fun d => d.val == day.weekday) then none
  else
    let wallMs := Ecma.dateUTC day.year (day.month - 1) day.day target.hour target.minute
    let solve := fun candidate => wallMs - tzOffsetMs intl candidate timeZone
    let candidate := solve (solve (solve (solve afterMs)))
    if candidate ≤ afterMs then none
    else
      let solved := intl.wallClockAt candidate timeZone
      if solved.year = day.year ∧ solved.month = day.month ∧ solved.day = day.day ∧
          solved.hour = target.hour ∧ solved.minute = target.minute then
        some candidate
      else none

/-- The next time past `afterMs` at which the clocks of the zone show the time of day on a
day asked for. -/
def nextWallOccurrence (target : Hhmm) (weekdays : Option (List (Fin 7))) (afterMs : ℤ)
    (timeZone : String) : Option ℤ :=
  let startDay := intl.wallClockAt afterMs timeZone
  (List.range 9).findSome? (wallOccurrence intl target weekdays afterMs timeZone startDay)

/-- The next time a schedule asks for after `afterMs`. -/
def computeNextRunAt (schedule : TaskSchedule) (afterMs : ℤ) (timezone : Option String) :
    Option ℤ :=
  match schedule with
  | .interval everyMs _ => some (afterMs + everyMs)
  | .daily time =>
    nextWallOccurrence intl time none afterMs (timezone.getD intl.hostTimeZone)
  | .weekly weekdays time =>
    nextWallOccurrence intl time (some weekdays) afterMs (timezone.getD intl.hostTimeZone)

variable {at_ : ℤ}

/-- An occurrence lies past the time it is looked for from. -/
theorem lt_wallOccurrence {target : Hhmm} {weekdays : Option (List (Fin 7))} {afterMs : ℤ}
    {timeZone : String} {startDay : WallClock} {dayShift : ℕ}
    (h : wallOccurrence intl target weekdays afterMs timeZone startDay dayShift = some at_) :
  afterMs < at_
  := by
  simp only [wallOccurrence, Option.ite_none_left_eq_some, Option.ite_none_right_eq_some] at h
  obtain ⟨-, hlt, -, hat⟩ := h
  cases hat
  apply not_le.mp hlt

/-- The next time a schedule asks for lies past the time it is computed from. -/
theorem lt_computeNextRunAt {schedule : TaskSchedule} {afterMs : ℤ} {timezone : Option String}
    (h : computeNextRunAt intl schedule afterMs timezone = some at_) :
  afterMs < at_
  := by
  have hwall : ∀ target weekdays timeZone,
      nextWallOccurrence intl target weekdays afterMs timeZone = some at_ → afterMs < at_ := by
    intro target weekdays timeZone hnext
    obtain ⟨dayShift, -, hday⟩ := exists_of_findSome?_eq_some hnext
    exact lt_wallOccurrence intl hday
  cases schedule with
  | interval everyMs min =>
    cases h
    omega
  | daily time | weekly weekdays time => apply hwall _ _ _ h

/-! ### A tick -/

/-- The most windows of a task that a tick enumerates. -/
def MAX_WINDOWS_PER_TICK : ℕ := 1000

structure ScheduleTickInput where
  now : ℤ
  bootAt : ℤ
  tasks : List TaskDefinition
  cursors : String → Option ℤ
  runningTaskIds : List String

structure TaskFire where
  task : TaskDefinition
  scheduledFor : ℤ
  queued : Bool
  deriving DecidableEq, Repr

structure TaskMissed where
  task : TaskDefinition
  scheduledFor : ℤ
  count : ℕ
  fires : Bool
  deriving DecidableEq, Repr

structure TaskSkipped where
  task : TaskDefinition
  scheduledFor : ℤ
  deriving DecidableEq, Repr

structure TaskTickResult where
  fires : List TaskFire
  missed : List TaskMissed
  skipped : List TaskSkipped
  deriving DecidableEq, Repr

/-- The entries that several parts of a tick push, in turn. -/
def TaskTickResult.concat (results : List TaskTickResult) : TaskTickResult where
  fires := results.flatMap (·.fires)
  missed := results.flatMap (·.missed)
  skipped := results.flatMap (·.skipped)

/-- The windows after the anchor, none of them in the future and no more than a tick may
enumerate. -/
def enumerateWindows (task : TaskDefinition) (anchor now : ℤ) : List ℤ :=
  Ascending.upTo (fun cursor => computeNextRunAt intl task.schedule cursor task.timezone) now
    MAX_WINDOWS_PER_TICK anchor

/-- What a tick pushes for the windows missed while no daemon was running. -/
def missedEntries (task : TaskDefinition) (running : Bool) (missedWindows : List ℤ) :
    TaskTickResult :=
  match missedWindows.getLast? with
  | none => ⟨[], [], []⟩
  | some latest =>
    let wantsFire := task.missedRun = .runLatest
    let blockedByOverlap := wantsFire ∧ running
    let missed := fun fires => [TaskMissed.mk task latest missedWindows.length fires]
    if wantsFire ∧ ¬ blockedByOverlap then ⟨[⟨task, latest, false⟩], missed true, []⟩
    else if wantsFire ∧ blockedByOverlap ∧ task.overlap = .queue then
      ⟨[⟨task, latest, true⟩], missed true, []⟩
    else ⟨[], missed false, []⟩

/-- What a tick pushes for a window that is due. -/
def dueEntries (task : TaskDefinition) (running : Bool) (at_ : ℤ) : TaskTickResult :=
  if running then
    if task.overlap = .skip then ⟨[], [], [⟨task, at_⟩]⟩ else ⟨[⟨task, at_, true⟩], [], []⟩
  else ⟨[⟨task, at_, false⟩], [], []⟩

/-- What a tick pushes for one task. -/
def evaluateTask (input : ScheduleTickInput) (task : TaskDefinition) : TaskTickResult :=
  if task.enabled then
    let anchor := (input.cursors task.id).getD task.createdAt
    let windows := enumerateWindows intl task anchor input.now
    let running := input.runningTaskIds.contains task.id
    let missedWindows := windows.filter (· < input.bootAt)
    let dueWindows := windows.filter (input.bootAt ≤ ·)
    .concat (missedEntries task running missedWindows :: dueWindows.map (dueEntries task running))
  else ⟨[], [], []⟩

def evaluateTick (input : ScheduleTickInput) : TaskTickResult :=
  .concat (input.tasks.map (evaluateTask intl input))

/-! ### What a tick pushes for a task -/

/-- The entries of one task. -/
def TaskTickResult.of (id : String) (result : TaskTickResult) : TaskTickResult where
  fires := result.fires.filter (·.task.id = id)
  missed := result.missed.filter (·.task.id = id)
  skipped := result.skipped.filter (·.task.id = id)

/-- The windows that the entries of a tick are for. -/
def TaskTickResult.scheduled (result : TaskTickResult) : List ℤ :=
  result.fires.map (·.scheduledFor) ++ result.missed.map (·.scheduledFor) ++
    result.skipped.map (·.scheduledFor)

/-- Every entry is of the task. -/
structure TaskTickResult.About (result : TaskTickResult) (task : TaskDefinition) : Prop where
  fires : ∀ fire ∈ result.fires, fire.task = task
  missed : ∀ entry ∈ result.missed, entry.task = task
  skipped : ∀ entry ∈ result.skipped, entry.task = task

variable {task : TaskDefinition}

/-- Entries of one task taken together are entries of the task. -/
theorem TaskTickResult.About.concat {results : List TaskTickResult}
    (h : ∀ result ∈ results, result.About task) :
  (TaskTickResult.concat results).About task
  := by
  constructor
  · intro fire hfire
    obtain ⟨result, hres, hfire⟩ := mem_flatMap.mp hfire
    exact (h result hres).fires fire hfire
  · intro entry hentry
    obtain ⟨result, hres, hentry⟩ := mem_flatMap.mp hentry
    exact (h result hres).missed entry hentry
  · intro entry hentry
    obtain ⟨result, hres, hentry⟩ := mem_flatMap.mp hentry
    exact (h result hres).skipped entry hentry

/-- What is pushed for missed windows is of the task. -/
theorem missedEntries_about (task : TaskDefinition) (running : Bool) (windows : List ℤ) :
  (missedEntries task running windows).About task
  := by
  rw [missedEntries]
  cases windows.getLast? with
  | none => constructor <;> simp
  | some latest =>
    dsimp only
    split_ifs
    all_goals constructor <;> simp

/-- What is pushed for a window that is due is of the task. -/
theorem dueEntries_about (task : TaskDefinition) (running : Bool) (at_ : ℤ) :
  (dueEntries task running at_).About task
  := by
  rw [dueEntries]
  split_ifs
  all_goals constructor <;> simp

/-- What a tick pushes for a task is of the task. -/
theorem evaluateTask_about (input : ScheduleTickInput) (task : TaskDefinition) :
  (evaluateTask intl input task).About task
  := by
  rw [evaluateTask]
  split_ifs
  · apply TaskTickResult.About.concat
    intro result hres
    rcases mem_cons.mp hres with rfl | hres
    · apply missedEntries_about
    · obtain ⟨at_, -, rfl⟩ := mem_map.mp hres
      apply dueEntries_about
  · constructor <;> simp

/-- Of what a tick pushes the entries of a task are those pushed for it, when no other task
has its id. -/
theorem evaluateTick_of {input : ScheduleTickInput}
    {before after : List TaskDefinition} (htasks : input.tasks = before ++ task :: after)
    (hids : ∀ other ∈ before ++ after, other.id ≠ task.id) :
  (evaluateTick intl input).of task.id = evaluateTask intl input task
  := by
  -- the same for each of the three lists: the others fall away and nothing of the task does
  have key : ∀ {β : Type} (f : TaskDefinition → List β) (owner : β → TaskDefinition),
      (∀ other, ∀ b ∈ f other, owner b = other) →
      (input.tasks.flatMap f).filter (fun b => (owner b).id = task.id) = f task := by
    intro β f owner howner
    have hnone : ∀ tasks : List TaskDefinition, (∀ other ∈ tasks, other.id ≠ task.id) →
        (tasks.flatMap f).filter (fun b => (owner b).id = task.id) = [] := by
      intro tasks htasks
      apply filter_eq_nil_iff.mpr
      intro b hb
      obtain ⟨other, hother, hb⟩ := mem_flatMap.mp hb
      rw [howner other b hb]
      simpa using htasks other hother
    rw [htasks, flatMap_append, flatMap_cons, filter_append, filter_append,
      hnone before (fun other h => hids other (by simp [h])),
      hnone after (fun other h => hids other (by simp [h])), nil_append, append_nil]
    apply filter_eq_self.mpr
    intro b hb
    simp [howner task b hb]
  have habout := evaluateTask_about intl input
  simp only [evaluateTick, TaskTickResult.concat, TaskTickResult.of, flatMap_map]
  congr 1
  · exact key (fun other => (evaluateTask intl input other).fires) (·.task)
      (fun other => (habout other).fires)
  · exact key (fun other => (evaluateTask intl input other).missed) (·.task)
      (fun other => (habout other).missed)
  · exact key (fun other => (evaluateTask intl input other).skipped) (·.task)
      (fun other => (habout other).skipped)

/-- The windows that entries taken together are for are those that each is for. -/
theorem mem_scheduled_concat {results : List TaskTickResult} :
  at_ ∈ (TaskTickResult.concat results).scheduled ↔ ∃ result ∈ results, at_ ∈ result.scheduled
  := by
  simp only [TaskTickResult.scheduled, TaskTickResult.concat, mem_append, mem_map, mem_flatMap]
  constructor
  · rintro ((⟨e, ⟨r, hr, he⟩, rfl⟩ | ⟨e, ⟨r, hr, he⟩, rfl⟩) | ⟨e, ⟨r, hr, he⟩, rfl⟩)
    · exact ⟨r, hr, .inl (.inl ⟨e, he, rfl⟩)⟩
    · exact ⟨r, hr, .inl (.inr ⟨e, he, rfl⟩)⟩
    · exact ⟨r, hr, .inr ⟨e, he, rfl⟩⟩
  rintro ⟨r, hr, (⟨e, he, rfl⟩ | ⟨e, he, rfl⟩) | ⟨e, he, rfl⟩⟩
  · exact .inl (.inl ⟨e, ⟨r, hr, he⟩, rfl⟩)
  · exact .inl (.inr ⟨e, ⟨r, hr, he⟩, rfl⟩)
  · exact .inr ⟨e, ⟨r, hr, he⟩, rfl⟩

/-- What is pushed for missed windows is for the latest of them. -/
theorem mem_scheduled_missedEntries {running : Bool} {windows : List ℤ} :
  at_ ∈ (missedEntries task running windows).scheduled ↔ windows.getLast? = some at_
  := by
  rw [missedEntries]
  cases windows.getLast? with
  | none => simp [TaskTickResult.scheduled]
  | some latest =>
    dsimp only
    split_ifs
    all_goals simp [TaskTickResult.scheduled, eq_comm]

/-- What is pushed for a window that is due is for this window. -/
theorem mem_scheduled_dueEntries {running : Bool} {window : ℤ} :
  at_ ∈ (dueEntries task running window).scheduled ↔ at_ = window
  := by
  rw [dueEntries]
  split_ifs
  all_goals simp [TaskTickResult.scheduled]

/-- The windows of a task that a tick looks at. -/
def tickWindows (input : ScheduleTickInput) (task : TaskDefinition) : List ℤ :=
  enumerateWindows intl task ((input.cursors task.id).getD task.createdAt) input.now

/-- What a tick pushes for a task that is enabled is for the latest window missed and for
every window that is due. -/
theorem mem_scheduled_evaluateTask {input : ScheduleTickInput} (hon : task.enabled) :
  at_ ∈ (evaluateTask intl input task).scheduled ↔
    ((tickWindows intl input task).filter (· < input.bootAt)).getLast? = some at_ ∨
      at_ ∈ tickWindows intl input task ∧ input.bootAt ≤ at_
  := by
  rw [evaluateTask, if_pos hon, mem_scheduled_concat]
  simp only [mem_cons, exists_eq_or_imp, mem_scheduled_missedEntries, mem_map,
    exists_exists_and_eq_and, mem_scheduled_dueEntries, mem_filter, decide_eq_true_eq]
  apply or_congr Iff.rfl
  constructor
  · rintro ⟨window, hwin, rfl⟩
    exact hwin
  · intro h
    exact ⟨at_, h, rfl⟩

/-- Of the windows missed the fires of a tick are for the latest, if any. -/
theorem missed_fires {input : ScheduleTickInput}
    (hon : task.enabled) (hrun : task.missedRun = .runLatest)
    (hidle : input.runningTaskIds.contains task.id = false) :
  ((evaluateTask intl input task).fires.filter (·.scheduledFor < input.bootAt)).map
      (·.scheduledFor) =
    ((tickWindows intl input task).filter (· < input.bootAt)).getLast?.toList
  := by
  rw [evaluateTask, if_pos hon]
  simp only [TaskTickResult.concat, flatMap_cons, filter_append, map_append, hidle]
  -- the windows that are due do not lie before the start
  have hdue : ((((tickWindows intl input task).filter (input.bootAt ≤ ·)).map (dueEntries task false)).flatMap
      (·.fires)).filter (·.scheduledFor < input.bootAt) = [] := by
    apply filter_eq_nil_iff.mpr
    intro fire hfire
    simp only [flatMap_map, mem_flatMap, mem_filter, decide_eq_true_eq] at hfire
    obtain ⟨window, ⟨-, hboot⟩, hfire⟩ := hfire
    obtain rfl : fire = ⟨task, window, false⟩ := by simpa [dueEntries] using hfire
    simpa using hboot
  rw [tickWindows] at hdue
  rw [hdue, map_nil, append_nil, missedEntries, ← tickWindows]
  cases hlast : ((tickWindows intl input task).filter (· < input.bootAt)).getLast? with
  | none => rfl
  | some latest =>
    have hmem := mem_of_mem_getLast? hlast
    rw [mem_filter] at hmem
    simp [hrun, of_decide_eq_true hmem.2]

/-- When no window was missed no fire is for one. -/
theorem no_missed_fires (input : ScheduleTickInput) (task : TaskDefinition)
    (hnone : (tickWindows intl input task).filter (· < input.bootAt) = []) :
  (evaluateTask intl input task).fires.filter (·.scheduledFor < input.bootAt) = []
  := by
  apply filter_eq_nil_iff.mpr
  intro fire hfire
  by_cases hon : task.enabled
  · have hmem : fire.scheduledFor ∈ (evaluateTask intl input task).scheduled := by
      simp only [TaskTickResult.scheduled, mem_append, mem_map]
      exact .inl (.inl ⟨fire, hfire, rfl⟩)
    rw [mem_scheduled_evaluateTask intl hon, hnone] at hmem
    rcases hmem with hmem | ⟨-, hboot⟩
    · cases hmem
    · simpa using hboot
  · simp [evaluateTask, hon] at hfire

/-! ### Ticks after a downtime -/

/-- The next window of a task. -/
def nextWindow (task : TaskDefinition) (cursor : ℤ) : Option ℤ :=
  computeNextRunAt intl task.schedule cursor task.timezone

/-- The windows of a task after an anchor. -/
def IsWindow (task : TaskDefinition) (anchor at_ : ℤ) : Prop :=
  TransGen (Ascending.Next (nextWindow intl task)) anchor at_

/-- A task that is enabled and runs the latest window it has missed. -/
structure CatchUpTask extends TaskDefinition where
  isEnabled : enabled
  runsLatest : missedRun = .runLatest

/-- A tick: the reading of the clock, the tasks around `task`, with their cursors and those of
them that are in flight, and whether a run of `task` is in flight, if one has been started. -/
structure Tick (task : TaskDefinition) where
  now : ℤ
  before : List TaskDefinition
  after : List TaskDefinition
  distinct : ∀ other ∈ before ++ after, other.id ≠ task.id
  cursors : String → Option ℤ
  othersRunning : List String
  inFlight : Bool

/-- What a tick is evaluated with, for a cursor of the task. Nothing is in flight before the
daemon has fired something. -/
def Tick.input {task : TaskDefinition} (tick : Tick task) (bootAt : ℤ) (cursor : Option ℤ)
    (fired : Bool) : ScheduleTickInput where
  now := tick.now
  bootAt := bootAt
  tasks := tick.before ++ task :: tick.after
  cursors := Function.update tick.cursors task.id cursor
  runningTaskIds :=
    (if fired && tick.inFlight then [task.id] else []) ++ tick.othersRunning.filter (· ≠ task.id)

/-- The largest of the windows so far and of those that entries are for. -/
def advance (cursor : Option ℤ) (scheduled : List ℤ) : Option ℤ :=
  scheduled.foldl (fun largest at_ => some (largest.elim at_ (max at_))) cursor

/-- The fires for the task that ticks produce, each with the largest window of the entries
before it as its cursor. -/
def producedFires (task : TaskDefinition) (bootAt : ℤ) :
    Option ℤ → Bool → List (Tick task) → List TaskFire
  | _, _, [] => []
  | cursor, fired, tick :: ticks =>
    let result := (evaluateTick intl (tick.input bootAt cursor fired)).of task.id
    result.fires ++ producedFires task bootAt (advance cursor result.scheduled)
        (fired || !result.fires.isEmpty) ticks

/-- The downtime before `bootAt` is compensated once: the fires for windows before it are one
for the latest, and none when there is no such window. -/
structure Compensated (task : TaskDefinition) (bootAt : ℤ) (cursor : Option ℤ)
    (fires : List TaskFire) : Prop where
  once : ∀ latest,
    IsGreatest {at_ | IsWindow intl task (cursor.getD task.createdAt) at_ ∧ at_ < bootAt} latest →
    (fires.filter (·.scheduledFor < bootAt)).map (·.scheduledFor) = [latest]
  none : (∀ at_, IsWindow intl task (cursor.getD task.createdAt) at_ → bootAt ≤ at_) →
    fires.filter (·.scheduledFor < bootAt) = []

/-- The windows that were missed while no daemon was running. -/
def missedWindows (task : TaskDefinition) (bootAt anchor : ℤ) : List ℤ :=
  Ascending.points (nextWindow intl task) (bootAt - 1) anchor

/-- The first tick that reaches a window missed reaches all of them, and they are not more than
a tick enumerates. -/
def WithinReach (task : TaskDefinition) (bootAt : ℤ) (cursor : Option ℤ)
    (ticks : List (Tick task)) : Prop :=
  let missed := missedWindows intl task bootAt (cursor.getD task.createdAt)
  ∀ first, missed.head? = some first → missed.length ≤ MAX_WINDOWS_PER_TICK ∧
      ∃ tick, ticks.find? (first ≤ ·.now) = some tick ∧ ∀ at_ ∈ missed, at_ ≤ tick.now

/-- The largest of some windows is one of them, or there is none, and none exceeds it. -/
theorem advance_spec (cursor : Option ℤ) (scheduled : List ℤ) :
  (advance cursor scheduled = cursor ∨ ∃ at_ ∈ scheduled, advance cursor scheduled = some at_) ∧
    ∀ at_ ∈ scheduled, ∃ largest, advance cursor scheduled = some largest ∧ at_ ≤ largest
  := by
  induction scheduled using List.reverseRecOn with
  | nil => simp [advance]
  | append_singleton scheduled last ih =>
  obtain ⟨hfrom, hle⟩ := ih
  have hstep : advance cursor (scheduled ++ [last]) =
      some ((advance cursor scheduled).elim last (max last)) := by
    simp [advance]
  cases hold : advance cursor scheduled with
  | none =>
    rw [hstep, hold]
    refine ⟨.inr ⟨last, by simp, rfl⟩, ?_⟩
    intro at_ hat
    rcases mem_append.mp hat with hat | hat
    · obtain ⟨largest, hmax, -⟩ := hle at_ hat
      rw [hold] at hmax
      cases hmax
    · obtain rfl := mem_singleton.mp hat
      exact ⟨at_, rfl, le_rfl⟩
  | some old =>
  rw [hstep, hold]
  refine ⟨?_, ?_⟩
  · rw [hold] at hfrom
    rcases le_total last old with h | h
    · rw [Option.elim_some, max_eq_right h]
      rcases hfrom with hfrom | ⟨at_, hat, hat'⟩
      · exact .inl hfrom
      · exact .inr ⟨at_, by simp [hat], hat'⟩
    · rw [Option.elim_some, max_eq_left h]
      exact .inr ⟨last, by simp, rfl⟩
  intro at_ hat
  use max last old, rfl
  rcases mem_append.mp hat with hat | hat
  · obtain ⟨largest, hmax, hlast⟩ := hle at_ hat
    rw [hold] at hmax
    cases hmax
    exact hlast.trans (le_max_right _ _)
  · obtain rfl := mem_singleton.mp hat
    apply le_max_left

section Runs

variable {task : TaskDefinition} {bootAt : ℤ}

/-- The windows of a task follow one another in time. -/
theorem lt_nextWindow {a b : ℤ} (h : nextWindow intl task a = some b) :
  a < b
  := lt_computeNextRunAt intl h

/-- The windows a tick looks at. -/
theorem Tick.tickWindows_input (tick : Tick task) (cursor : Option ℤ) (fired : Bool) :
  tickWindows intl (tick.input bootAt cursor fired) task =
    Ascending.upTo (nextWindow intl task) tick.now MAX_WINDOWS_PER_TICK
      (cursor.getD task.createdAt)
  := by
  simp only [tickWindows, Tick.input, Function.update_self]
  rfl

/-- The windows missed that a tick looks at are the first of those missed up to then. -/
theorem filter_tickWindows (tick : Tick task) (cursor : Option ℤ) (fired : Bool) :
  (tickWindows intl (tick.input bootAt cursor fired) task).filter (· < bootAt) =
    ((missedWindows intl task bootAt (cursor.getD task.createdAt)).filter (· ≤ tick.now)).take
      MAX_WINDOWS_PER_TICK
  := by
  have hnext : ∀ a b, nextWindow intl task a = some b → a < b := fun a b => lt_nextWindow intl
  rw [missedWindows, ← Ascending.points_min hnext, ← Ascending.upTo_eq_take hnext,
    min_comm, ← Ascending.filter_upTo hnext, tick.tickWindows_input]
  apply filter_congr
  intro at_ _
  rw [decide_eq_decide]
  omega

/-- What a tick pushes for a task is for windows that it looks at. -/
theorem mem_tickWindows {input : ScheduleTickInput} {at_ : ℤ}
    (hat : at_ ∈ (evaluateTask intl input task).scheduled) :
  at_ ∈ tickWindows intl input task
  := by
  by_cases hon : task.enabled
  · rw [mem_scheduled_evaluateTask intl hon] at hat
    rcases hat with hlast | ⟨hat, -⟩
    · exact mem_of_mem_filter (mem_of_mem_getLast? hlast)
    · exact hat
  · simp [evaluateTask, hon, TaskTickResult.scheduled] at hat

/-- Of what a tick pushes the entries of the task. -/
theorem Tick.evaluate_of (tick : Tick task) (cursor : Option ℤ) (fired : Bool) :
  (evaluateTick intl (tick.input bootAt cursor fired)).of task.id =
    evaluateTask intl (tick.input bootAt cursor fired) task
  := by
  apply evaluateTick_of intl
  · rfl
  · exact tick.distinct

variable {fired : Bool} {cursor : Option ℤ} {tick : Tick task}

/-- The windows a tick looks at come after the cursor. -/
theorem Tick.reaches {at_ : ℤ}
    (hat : at_ ∈ tickWindows intl (tick.input bootAt cursor fired) task) :
  IsWindow intl task (cursor.getD task.createdAt) at_ ∧ at_ ≤ tick.now
  := by
  rw [tick.tickWindows_input] at hat
  exact Ascending.mem_upTo hat

/-- Past a window no other windows before the start are left than before it. -/
theorem missedWindows_subset {anchor at_ window : ℤ} (hat : IsWindow intl task anchor at_)
    (hwin : window ∈ missedWindows intl task bootAt at_) :
  window ∈ missedWindows intl task bootAt anchor
  := Ascending.points_after (fun _ _ => lt_nextWindow intl) hat hwin

/-- When no window before the start is left there are no more fires for one. -/
theorem producedFires_of_none {ticks : List (Tick task)}
    (hnone : missedWindows intl task bootAt (cursor.getD task.createdAt) = []) :
  (producedFires intl task bootAt cursor fired ticks).filter (·.scheduledFor < bootAt) = []
  := by
  induction ticks generalizing cursor fired with
  | nil => rfl
  | cons tick ticks ih =>
  rw [producedFires, tick.evaluate_of intl, filter_append]
  have hmissed :
      (tickWindows intl (tick.input bootAt cursor fired) task).filter (· < bootAt) = [] := by
    rw [filter_tickWindows, hnone]
    rfl
  have hhead : (evaluateTask intl (tick.input bootAt cursor fired) task).fires.filter
      (·.scheduledFor < bootAt) = [] :=
    no_missed_fires intl (tick.input bootAt cursor fired) task hmissed
  rw [hhead, nil_append]
  apply ih
  rcases (advance_spec cursor
    (evaluateTask intl (tick.input bootAt cursor fired) task).scheduled).1 with
    hsame | ⟨at_, hat, hat'⟩
  · rw [hsame, hnone]
  rw [hat']
  apply eq_nil_iff_forall_not_mem.mpr
  intro window hwin
  have hreach := (Tick.reaches intl (mem_tickWindows intl hat)).1
  have hmem := missedWindows_subset intl hreach hwin
  rw [hnone] at hmem
  cases hmem

variable {first : ℤ}

/-- Before the first window missed is reached a tick pushes nothing for the task. -/
theorem evaluateTask_early
    (hfirst : (missedWindows intl task bootAt (cursor.getD task.createdAt)).head? = some first)
    (hearly : tick.now < first) :
  (evaluateTask intl (tick.input bootAt cursor fired) task).scheduled = []
  := by
  apply eq_nil_iff_forall_not_mem.mpr
  intro at_ hat
  have hmem := mem_tickWindows intl hat
  rw [tick.tickWindows_input, Ascending.upTo_eq_take (fun _ _ => lt_nextWindow intl)] at hmem
  obtain ⟨hreach, hle⟩ :=
    (Ascending.mem_points_iff fun _ _ => lt_nextWindow intl).mp (mem_of_mem_take hmem)
  -- the first window is the one right after the cursor
  have hnext : nextWindow intl task (cursor.getD task.createdAt) = some first :=
    Ascending.next_of_head? hfirst
  obtain ⟨b, hb, hrest⟩ := TransGen.head'_iff.mp hreach
  obtain rfl := Option.some.inj (hnext.symm.trans hb)
  have hfirstLe : first ≤ at_ := by
    rcases hrest.cases_head with rfl | ⟨c, hc, hrest⟩
    · exact le_rfl
    · exact (Ascending.lt_of_reaches (fun _ _ => lt_nextWindow intl)
        (.head' hc hrest)).le
  omega

/-- Whether a tick that reaches the first window missed reaches the latest. -/
theorem latest_in_reach {latest : ℤ} (hlatest :
      (missedWindows intl task bootAt (cursor.getD task.createdAt)).getLast? = some latest) :
  ((tickWindows intl (tick.input bootAt cursor fired) task).filter (· < bootAt)).getLast? =
      some latest ↔
    (missedWindows intl task bootAt (cursor.getD task.createdAt)).length ≤ MAX_WINDOWS_PER_TICK ∧
      ∀ at_ ∈ missedWindows intl task bootAt (cursor.getD task.createdAt), at_ ≤ tick.now
  := by
  have hnext : ∀ a b, nextWindow intl task a = some b → a < b := fun a b => lt_nextWindow intl
  have hgreat := (Ascending.isGreatest_iff hnext).mpr hlatest
  have hall : ∀ at_ ∈ missedWindows intl task bootAt (cursor.getD task.createdAt),
      at_ ≤ latest := by
    intro at_ hat
    exact hgreat.2 (Ascending.mem_upTo hat)
  rw [filter_tickWindows]
  by_cases hnow : latest ≤ tick.now
  · have hfilt : (missedWindows intl task bootAt (cursor.getD task.createdAt)).filter
        (· ≤ tick.now) = missedWindows intl task bootAt (cursor.getD task.createdAt) := by
      apply filter_eq_self.mpr
      intro at_ hat
      have hle := hall at_ hat
      rw [decide_eq_true_eq]
      omega
    rw [hfilt, missedWindows, Ascending.getLast?_take_points hnext hlatest]
    constructor
    · intro hlen
      exact ⟨hlen, fun at_ hat => (hall at_ hat).trans hnow⟩
    · rintro ⟨hlen, -⟩
      exact hlen
  constructor
  · intro hlast
    have hmem := mem_of_mem_take (mem_of_mem_getLast? hlast)
    rw [mem_filter, decide_eq_true_eq] at hmem
    exact absurd hmem.2 hnow
  · rintro ⟨-, hle⟩
    exact absurd (hle latest (mem_of_mem_getLast? hlatest)) hnow

/-- The fires for missed windows of a tick that is the first to reach one are followed by no
others if they are for the latest. -/
theorem producedFires_reached (catchUp : CatchUpTask) {tick : Tick catchUp.toTaskDefinition}
    {ticks : List (Tick catchUp.toTaskDefinition)} {latest : ℤ}
    (hfirst : (missedWindows intl catchUp.toTaskDefinition bootAt
      (cursor.getD catchUp.createdAt)).head? = some first)
    (hlast : (missedWindows intl catchUp.toTaskDefinition bootAt
      (cursor.getD catchUp.createdAt)).getLast? = some latest)
    (hreach : first ≤ tick.now) :
  ((producedFires intl catchUp.toTaskDefinition bootAt cursor false (tick :: ticks)).filter
      (·.scheduledFor < bootAt)).map (·.scheduledFor) = [latest] ↔
    ((tickWindows intl (tick.input bootAt cursor false) catchUp.toTaskDefinition).filter
      (· < bootAt)).getLast? = some latest
  := by
  have hnext : ∀ a b, nextWindow intl catchUp.toTaskDefinition a = some b → a < b :=
    fun a b => lt_nextWindow intl
  have hidle : (tick.input bootAt cursor false).runningTaskIds.contains catchUp.id = false := by
    simp [Tick.input]
  have hfires := missed_fires intl catchUp.isEnabled catchUp.runsLatest hidle
  rw [producedFires, tick.evaluate_of intl, filter_append, map_append]
  change ((evaluateTask intl _ _).fires.filter (·.scheduledFor < bootAt)).map _ =
    ((tickWindows intl _ _).filter (· < bootAt)).getLast?.toList at hfires
  rw [hfires]
  -- the first window is in reach, so the tick fires for some window missed
  obtain ⟨fired, hfired⟩ : ∃ fired,
      ((tickWindows intl (tick.input bootAt cursor false) catchUp.toTaskDefinition).filter
        (· < bootAt)).getLast? = some fired := by
    rw [filter_tickWindows, ← Option.isSome_iff_exists, List.getLast?_isSome]
    cases hmissed : missedWindows intl catchUp.toTaskDefinition bootAt
        (cursor.getD catchUp.createdAt) with
    | nil => simp [hmissed] at hfirst
    | cons head rest =>
      obtain rfl : head = first := by simpa [hmissed] using hfirst
      simp [hreach, MAX_WINDOWS_PER_TICK]
  rw [hfired, Option.toList_some, Option.some.injEq]
  constructor
  · intro h
    exact (List.cons.inj h).1
  rintro rfl
  rw [producedFires_of_none]
  · rfl
  -- the cursor has passed the latest window missed
  have hscheduled : fired ∈
      (evaluateTask intl (tick.input bootAt cursor false) catchUp.toTaskDefinition).scheduled :=
    (mem_scheduled_evaluateTask intl catchUp.isEnabled).mpr (.inl hfired)
  have hspec := advance_spec cursor
    (evaluateTask intl (tick.input bootAt cursor false) catchUp.toTaskDefinition).scheduled
  obtain ⟨largest, hmax, hle⟩ := hspec.2 fired hscheduled
  rw [hmax, Option.getD_some]
  have hwin : IsWindow intl catchUp.toTaskDefinition (cursor.getD catchUp.createdAt)
      largest := by
    rcases hspec.1 with hsame | ⟨at_, hat, hat'⟩
    · -- a cursor that has not moved lies before every window
      have hcur := hsame.symm.trans hmax
      have hlt := Ascending.lt_of_reaches hnext
        (Tick.reaches intl (mem_tickWindows intl hscheduled)).1
      rw [hcur, Option.getD_some] at hlt
      omega
    · obtain rfl := Option.some.inj (hat'.symm.trans hmax)
      exact (Tick.reaches intl (mem_tickWindows intl hat)).1
  apply eq_nil_iff_forall_not_mem.mpr
  intro window hmem
  have hlt := Ascending.lt_of_reaches hnext (Ascending.mem_upTo hmem).1
  have hgreat := (Ascending.isGreatest_iff hnext).mpr hlast
  have hmem' := Ascending.mem_upTo (missedWindows_subset intl hwin hmem)
  have hle' : window ≤ fired := hgreat.2 hmem'
  omega

/-- Ticks before the first window missed is reached change nothing. -/
theorem producedFires_early {ticks : List (Tick task)}
    (hfirst : (missedWindows intl task bootAt (cursor.getD task.createdAt)).head? = some first)
    (hearly : tick.now < first) :
  producedFires intl task bootAt cursor false (tick :: ticks) =
    producedFires intl task bootAt cursor false ticks
  := by
  have hnone : (evaluateTask intl (tick.input bootAt cursor false) task).scheduled = [] :=
    evaluateTask_early intl hfirst hearly
  have hfires : (evaluateTask intl (tick.input bootAt cursor false) task).fires = [] := by
    rw [TaskTickResult.scheduled, append_eq_nil_iff, append_eq_nil_iff, map_eq_nil_iff] at hnone
    exact hnone.1.1
  rw [producedFires, tick.evaluate_of intl, hnone, hfires]
  rfl

/-- The fires for missed windows are one for the latest exactly when the first tick that
reaches a window missed reaches all of them. -/
theorem missed_fires_iff (catchUp : CatchUpTask)
    {ticks : List (Tick catchUp.toTaskDefinition)} {latest : ℤ}
    (hfirst : (missedWindows intl catchUp.toTaskDefinition bootAt
      (cursor.getD catchUp.createdAt)).head? = some first)
    (hlast : (missedWindows intl catchUp.toTaskDefinition bootAt
      (cursor.getD catchUp.createdAt)).getLast? = some latest) :
  ((producedFires intl catchUp.toTaskDefinition bootAt cursor false ticks).filter
      (·.scheduledFor < bootAt)).map (·.scheduledFor) = [latest] ↔
    WithinReach intl catchUp.toTaskDefinition bootAt cursor ticks
  := by
  simp only [WithinReach, hfirst, Option.some.injEq, forall_eq']
  induction ticks with
  | nil => simp [producedFires]
  | cons tick ticks ih =>
  by_cases hreach : first ≤ tick.now
  · rw [producedFires_reached intl catchUp hfirst hlast hreach, latest_in_reach intl hlast,
      List.find?_cons_of_pos (by simpa using hreach)]
    simp
  · rw [producedFires_early intl hfirst (not_le.mp hreach), ih,
      List.find?_cons_of_neg (by simpa using hreach)]

end Runs

/-- The clocks of a host in UTC that knows no other zone. The calendar is counted in years that
begin in March. -/
def utc : Intl where
  hostTimeZone := "UTC"
  wallClockAt epochMs _ :=
    let days := epochMs / 86400000 + 719468
    let era := days / 146097
    let dayOfEra := days % 146097
    let yearOfEra := (dayOfEra - dayOfEra / 1460 + dayOfEra / 36524 - dayOfEra / 146096) / 365
    let dayOfYear := dayOfEra - (365 * yearOfEra + yearOfEra / 4 - yearOfEra / 100)
    let fromMarch := (5 * dayOfYear + 2) / 153
    let month := if fromMarch < 10 then fromMarch + 3 else fromMarch - 9
    { year := yearOfEra + era * 400 + if month ≤ 2 then 1 else 0
      month := month
      day := dayOfYear - (153 * fromMarch + 2) / 5 + 1
      hour := epochMs / 3600000 % 24
      minute := epochMs / 60000 % 60
      weekday := ((epochMs / 86400000 + 4) % 7).toNat }

example :
  computeNextRunAt utc (.weekly [1, 3, 5] ⟨9, 0, by decide, by decide⟩)
      (Ecma.dateUTC 2026 0 16 10 0) none =
    some (Ecma.dateUTC 2026 0 19 9 0)
  := by decide +kernel

/-- A task of every minute that runs the latest window it has missed. -/
def everyMinute : CatchUpTask where
  id := "sync"
  name := "Sync"
  enabled := true
  cwd := "/home/me/repo"
  schedule := .interval 60000 (by decide)
  timezone := some "UTC"
  missedRun := .runLatest
  overlap := .skip
  configHash := none
  createdAt := 1
  createdAt_pos := by decide
  isEnabled := rfl
  runsLatest := rfl

/-- A tick with no other tasks and with nothing in flight. -/
def loneTick (task : TaskDefinition) (now : ℤ) : Tick task where
  now := now
  before := []
  after := []
  distinct := by simp
  cursors := fun _ => none
  othersRunning := []
  inFlight := false

end Scheduler
