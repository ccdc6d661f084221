import VolundCode.Cli.Daemon

/-!
# Each window runs at most once and none is lost

The cursor of a task never passes a window that has no row: a tick books the windows of a
task from its cursor on, in ascending order, and leaves none out. So no window is lost, and
one that has been launched is behind the cursor for every tick that loads the snapshot
later. A tick that loads it while another is in progress finds windows that the other one
is about to launch, and launches them once more.

`exact_of_orderly` says that a run in which no tick loads the snapshot while another is in
progress launches each window at most once and leaves none without a row, as long as ticks
come that have room for the task.
-/

namespace Daemon

open Relation Scheduler List

/-! ### The windows a tick has left -/

/-- The windows of a task that a step of a tick is going to book. -/
def Work.windows (id : String) : Work → List ℤ
  | .record task _ scheduledFor => if task.id = id then [scheduledFor] else []
  | .group fires => (fires.filter (·.task.id = id)).map (·.scheduledFor)
  | .launch task scheduledFor => if task.id = id then [scheduledFor] else []
  | .spawn _ _ _ => []

/-- The windows of a task that what is left of a tick is going to book, in turn. -/
def pending (id : String) (left : List Work) : List ℤ :=
  left.flatMap (Work.windows id)

variable {id : String}

@[simp]
theorem pending_nil :
  pending id [] = []
  := rfl

@[simp]
theorem pending_cons {next : Work} {rest : List Work} :
  pending id (next :: rest) = next.windows id ++ pending id rest
  := rfl

@[simp]
theorem pending_append {left rest : List Work} :
  pending id (left ++ rest) = pending id left ++ pending id rest
  := flatMap_append

/-- A group for which there is room books the windows it stands for. -/
theorem pending_groupWorks {group : List TaskFire} :
  pending id (groupWorks group) = (Work.group group).windows id
  := by
  rcases eq_nil_or_concat group with rfl | ⟨stale, latest, rfl⟩
  · rfl
  have hstale : pending id (stale.map fun fire =>
      Work.record fire.task .missed fire.scheduledFor) =
      (stale.filter (·.task.id = id)).map (·.scheduledFor) := by
    induction stale with
    | nil => rfl
    | cons fire stale ih =>
      rw [map_cons, pending_cons, ih, Work.windows]
      by_cases hid : fire.task.id = id
      all_goals simp [hid]
  simp only [groupWorks, concat_eq_append, List.getLast?_append, List.getLast?_singleton,
    Option.some_or, dropLast_concat, pending_append, hstale, Work.windows,
    filter_append, map_append, pending_cons, pending_nil, append_nil]
  by_cases hid : latest.task.id = id
  all_goals simp [hid]

/-- Every fire of a group is of the task the group is for. -/
def Sorted (groups : List (String × List TaskFire)) : Prop :=
  (groups.map (·.1)).Nodup ∧ ∀ group ∈ groups, ∀ fire ∈ group.2, fire.task.id = group.1

/-- The fires of a task in some groups, in turn. -/
def firesOf (id : String) (groups : List (String × List TaskFire)) : List TaskFire :=
  (groups.flatMap (·.2)).filter (·.task.id = id)

variable {groups : List (String × List TaskFire)}

/-- In the groups of other tasks there are no fires of a task. -/
theorem firesOf_of_notMem
    (h : Sorted groups) (hid : id ∉ groups.map (·.1)) :
  firesOf id groups = []
  := by
  apply filter_eq_nil_iff.mpr
  intro fire hfire
  obtain ⟨group, hgroup, hfire⟩ := mem_flatMap.mp hfire
  rw [h.2 group hgroup fire hfire, decide_eq_true_eq]
  rintro rfl
  exact hid (mem_map_of_mem hgroup)

variable {fire : TaskFire}

/-- The keys of groups that a fire has joined. -/
theorem mem_keys_groupFire :
  id ∈ (groupFire fire groups).map (·.1) ↔ id ∈ groups.map (·.1) ∨ id = fire.task.id
  := by
  induction groups with
  | nil => simp [groupFire]
  | cons group groups ih =>
  obtain ⟨key, group⟩ := group
  rw [groupFire]
  by_cases hkey : key = fire.task.id
  · rw [if_pos hkey]
    subst hkey
    simp
    tauto
  · rw [if_neg hkey, map_cons, mem_cons, ih, map_cons, mem_cons]
    tauto

/-- A fire joins the group of its task. -/
theorem Sorted.groupFire
    (h : Sorted groups) :
  Sorted (groupFire fire groups)
  := by
  induction groups with
  | nil =>
    constructor
    all_goals simp [Daemon.groupFire]
  | cons group groups ih =>
  obtain ⟨key, group⟩ := group
  obtain ⟨hkeys, hfires⟩ := h
  rw [map_cons, nodup_cons] at hkeys
  have htail : Sorted groups := ⟨hkeys.2, fun g hg => hfires g (mem_cons_of_mem _ hg)⟩
  rw [Daemon.groupFire]
  by_cases hkey : key = fire.task.id
  · rw [if_pos hkey]
    constructor
    · rw [map_cons, nodup_cons]
      exact hkeys
    intro g hg f hf
    rcases mem_cons.mp hg with rfl | hg
    · rcases mem_append.mp hf with hf | hf
      · exact hfires (key, group) (by simp) f hf
      · rw [mem_singleton.mp hf]
        exact hkey.symm
    · exact hfires g (mem_cons_of_mem _ hg) f hf
  rw [if_neg hkey]
  obtain ⟨hkeys', hfires'⟩ := ih htail
  constructor
  · rw [map_cons, nodup_cons]
    refine ⟨?_, hkeys'⟩
    rw [mem_keys_groupFire, not_or]
    exact ⟨hkeys.1, hkey⟩
  intro g hg f hf
  rcases mem_cons.mp hg with rfl | hg
  · exact hfires _ (by simp) f hf
  · exact hfires' g hg f hf

/-- A fire comes last among the fires of its task. -/
theorem firesOf_groupFire
    (h : Sorted groups) :
  firesOf id (groupFire fire groups) = firesOf id groups ++ [fire].filter (·.task.id = id)
  := by
  induction groups with
  | nil => rfl
  | cons group groups ih =>
  obtain ⟨key, group⟩ := group
  obtain ⟨hkeys, hfires⟩ := h
  rw [map_cons, nodup_cons] at hkeys
  have htail : Sorted groups := ⟨hkeys.2, fun g hg => hfires g (mem_cons_of_mem _ hg)⟩
  rw [groupFire]
  by_cases hkey : key = fire.task.id
  · rw [if_pos hkey]
    -- the groups behind hold no fires of this task, so the fire comes last
    by_cases hid : fire.task.id = id
    · have hrest : firesOf id groups = [] := by
        apply firesOf_of_notMem htail
        rw [← hid, ← hkey]
        exact hkeys.1
      simp only [firesOf, flatMap_cons, filter_append] at hrest ⊢
      rw [hrest, append_nil, append_nil]
    · simp [firesOf, hid]
  rw [if_neg hkey]
  have hrest := ih htail
  simp only [firesOf, flatMap_cons, filter_append] at hrest ⊢
  rw [hrest, append_assoc]

/-- One more fire joins the groups of those before it. -/
theorem firesByTask_concat {fires : List TaskFire} :
  firesByTask (fires ++ [fire]) = groupFire fire (firesByTask fires)
  := by
  simp [firesByTask]

/-- Grouping the fires by task gives one group to a task. -/
theorem sorted_firesByTask (fires : List TaskFire) :
  Sorted (firesByTask fires)
  := by
  induction fires using List.reverseRecOn with
  | nil => exact ⟨nodup_nil, by simp [firesByTask]⟩
  | append_singleton fires fire ih =>
    rw [firesByTask_concat]
    exact ih.groupFire

/-- Grouping the fires by task keeps the order of the fires of a task. -/
theorem firesOf_firesByTask (id : String) (fires : List TaskFire) :
  firesOf id (firesByTask fires) = fires.filter (·.task.id = id)
  := by
  induction fires using List.reverseRecOn with
  | nil => rfl
  | append_singleton fires fire ih =>
    rw [firesByTask_concat, filter_append, ← ih]
    exact firesOf_groupFire (sorted_firesByTask fires)

/-- The groups hold the fires that were grouped. -/
theorem mem_of_mem_firesByTask {fires : List TaskFire} {group : String × List TaskFire}
    (hgroup : group ∈ firesByTask fires) (hfire : fire ∈ group.2) :
  fire ∈ fires
  := by
  have hmem : fire ∈ firesOf fire.task.id (firesByTask fires) := by
    simp only [firesOf, mem_filter, decide_true, and_true]
    exact mem_flatMap.mpr ⟨group, hgroup, hfire⟩
  rw [firesOf_firesByTask] at hmem
  exact mem_of_mem_filter hmem

/-- The windows of a task that groups are going to book are those of its fires. -/
theorem pending_groups (groups : List (String × List TaskFire)) :
  pending id (groups.map fun group => .group group.2) = (firesOf id groups).map (·.scheduledFor)
  := by
  induction groups with
  | nil => rfl
  | cons group groups ih =>
    rw [map_cons, pending_cons, ih, Work.windows, firesOf, firesOf, flatMap_cons,
      filter_append, map_append]

/-- Behind the group of a task there are no fires of the task. -/
theorem pending_after_group (h : Sorted groups) {before after : List Work} {fires : List TaskFire}
    (hgroups : groups.map (fun group => .group group.2) = before ++ .group fires :: after)
    (hfire : fire ∈ fires) :
  pending fire.task.id after = []
  := by
  obtain ⟨groups₁, groups₂, rfl, rfl, hrest⟩ := map_eq_append_iff.mp hgroups
  obtain ⟨group, rest, rfl, hgroup, rfl⟩ := map_eq_cons_iff.mp hrest
  obtain rfl : group.2 = fires := by simpa using hgroup
  obtain ⟨hkeys, hfires⟩ := h
  have hid := hfires group (by simp) fire hfire
  have hsorted : Sorted rest := by
    constructor
    · rw [map_append, map_cons] at hkeys
      exact (nodup_cons.mp hkeys.of_append_right).2
    · intro g hg
      exact hfires g (by simp [hg])
  have hnotMem : fire.task.id ∉ rest.map (·.1) := by
    rw [map_append, map_cons] at hkeys
    rw [hid]
    exact (nodup_cons.mp hkeys.of_append_right).1
  rw [pending_groups, firesOf_of_notMem hsorted hnotMem]
  rfl

/-- The windows of a task that a tick is going to book: the latest missed if it does not fire,
then those skipped, then those that fire and do not wait. -/
theorem pending_works (outcome : TaskTickResult) :
  pending id (works outcome) = ((outcome.of id).missed.filter (¬ ·.fires)).map (·.scheduledFor) ++
      (outcome.of id).skipped.map (·.scheduledFor) ++
      ((outcome.of id).fires.filter (¬ ·.queued)).map (·.scheduledFor)
  := by
  have hrec : ∀ {β : Type} (l : List β) (task : β → TaskDefinition) (at_ : β → ℤ) status,
      pending id (l.map fun b => .record (task b) status (at_ b)) =
        (l.filter fun b => (task b).id = id).map at_ := by
    intro β l task at_ status
    induction l with
    | nil => rfl
    | cons b l ih =>
      rw [map_cons, pending_cons, ih, Work.windows]
      by_cases hid : (task b).id = id
      all_goals simp [hid]
  have hcomm : ∀ {β : Type} (l : List β) (p q : β → Bool),
      (l.filter p).filter q = (l.filter q).filter p := by
    intro β l p q
    rw [filter_filter, filter_filter]
    congr 1
    funext b
    apply Bool.and_comm
  rw [works, pending_append, pending_append, hrec, hrec, pending_groups, firesOf_firesByTask]
  simp only [TaskTickResult.of]
  rw [hcomm outcome.missed, hcomm outcome.fires]

/-! ### What a tick books -/

section Booked

variable (intl : Intl)

/-- The windows before the start of the daemon that a tick looks at. -/
def lateWindows (input : ScheduleTickInput) (task : TaskDefinition) : List ℤ :=
  (tickWindows intl input task).filter (· < input.bootAt)

/-- The windows from the start of the daemon on that a tick looks at. -/
def dueWindows (input : ScheduleTickInput) (task : TaskDefinition) : List ℤ :=
  (tickWindows intl input task).filter (input.bootAt ≤ ·)

/-- The task waits for its run in flight. -/
def Waits (input : ScheduleTickInput) (task : TaskDefinition) : Prop :=
  task.overlap = .queue ∧ task.id ∈ input.runningTaskIds

/-- What a tick pushes for the windows that are due. -/
theorem concat_dueEntries (task : TaskDefinition) (running : Bool) (windows : List ℤ) :
  TaskTickResult.concat (windows.map (dueEntries task running)) =
    if running then
      if task.overlap = .skip then ⟨[], [], windows.map (⟨task, ·⟩)⟩
      else ⟨windows.map (⟨task, ·, true⟩), [], []⟩
    else ⟨windows.map (⟨task, ·, false⟩), [], []⟩
  := by
  induction windows with
  | nil => split_ifs <;> rfl
  | cons at_ windows ih =>
  have hcons : TaskTickResult.concat ((at_ :: windows).map (dueEntries task running)) =
      ⟨(dueEntries task running at_).fires ++
          (TaskTickResult.concat (windows.map (dueEntries task running))).fires,
        (dueEntries task running at_).missed ++
          (TaskTickResult.concat (windows.map (dueEntries task running))).missed,
        (dueEntries task running at_).skipped ++
          (TaskTickResult.concat (windows.map (dueEntries task running))).skipped⟩ := rfl
  rw [hcons, ih, dueEntries]
  split_ifs <;> rfl

variable {task : TaskDefinition}

/-- Where no two tasks have the same id, the tasks around one have other ids. -/
theorem others_distinct {tasks before after : List TaskDefinition}
    (htasks : tasks = before ++ task :: after) (hdist : (tasks.map (·.id)).Nodup) :
  ∀ other ∈ before ++ after, other.id ≠ task.id
  := by
  rw [htasks, map_append, map_cons, nodup_middle, nodup_cons] at hdist
  intro other hother heq
  apply hdist.1
  rw [← map_append, ← heq]
  exact mem_map_of_mem hother

/-- The windows of a task that a tick books: the latest of those missed and those that are due,
unless the task waits. Then it is at most the latest missed. -/
theorem pending_load {input : ScheduleTickInput}
    (hmem : task ∈ input.tasks) (hdist : (input.tasks.map (·.id)).Nodup) (hon : task.enabled) :
  (¬ Waits input task → pending task.id (works (evaluateTick intl input)) =
      (lateWindows intl input task).getLast?.toList ++ dueWindows intl input task) ∧
  (pending task.id (works (evaluateTick intl input)) =
      (lateWindows intl input task).getLast?.toList ++ dueWindows intl input task ∨
    pending task.id (works (evaluateTick intl input)) =
      (lateWindows intl input task).getLast?.toList ∨
    pending task.id (works (evaluateTick intl input)) = [])
  := by
  obtain ⟨before, after, htasks⟩ := append_of_mem hmem
  have hids := others_distinct htasks hdist
  have hents : evaluateTask intl input task = .concat
      [missedEntries task (input.runningTaskIds.contains task.id) (lateWindows intl input task),
        .concat ((dueWindows intl input task).map
          (dueEntries task (input.runningTaskIds.contains task.id)))] := by
    rw [evaluateTask, if_pos hon]
    simp [TaskTickResult.concat, lateWindows, dueWindows, tickWindows]
  rw [pending_works, evaluateTick_of intl htasks hids, hents, concat_dueEntries, missedEntries]
  have hcontains : input.runningTaskIds.contains task.id ↔
      task.id ∈ input.runningTaskIds := contains_iff_mem
  cases hruns : input.runningTaskIds.contains task.id with
  | false =>
    rcases (lateWindows intl input task).getLast? with _ | latest
    · simp [TaskTickResult.concat, filter_map, Function.comp_def]
    · cases hmissed : task.missedRun
      all_goals simp [TaskTickResult.concat, filter_map, Function.comp_def]
  | true =>
  have hin := hcontains.mp hruns
  cases hoverlap : task.overlap with
  | skip =>
    rcases (lateWindows intl input task).getLast? with _ | latest
    · simp [TaskTickResult.concat, Function.comp_def]
    · cases hmissed : task.missedRun
      all_goals simp [TaskTickResult.concat, Function.comp_def]
  | queue =>
  have hwaits : Waits input task := ⟨hoverlap, hin⟩
  refine ⟨fun h => absurd hwaits h, ?_⟩
  rcases (lateWindows intl input task).getLast? with _ | latest
  · simp [TaskTickResult.concat, filter_map, Function.comp_def]
  · cases hmissed : task.missedRun
    all_goals simp [TaskTickResult.concat, filter_map, Function.comp_def]

/-- A row accounts for its own window, and one for a window missed before the start of the
daemon that wrote it for the windows missed before that. -/
def Accounted (s : State) (id : String) (window : ℤ) : Prop :=
  ∃ booking ∈ s.history, booking.taskId = id ∧ (booking.scheduledFor = window ∨
      window ≤ booking.scheduledFor ∧ booking.scheduledFor < booking.bootAt)

/-- The cursor of the task is not before the window. -/
def Passed (s : State) (id : String) (window : ℤ) : Prop :=
  ∃ cursor, s.store.cursors id = some cursor ∧ window ≤ cursor

/-- Windows of a task past its cursor, in ascending order and without a gap but for those that
were missed before the start of the daemon, of which the latest is the first. -/
structure Contiguous (s : State) (bootAt : ℤ) (task : TaskDefinition) (windows : List ℤ) :
    Prop where
  ascending : windows.Pairwise (· < ·)
  ahead : ∀ window ∈ windows, IsWindow intl task task.createdAt window ∧ ¬ Passed s task.id window
  due : ∀ window ∈ windows.tail, bootAt ≤ window
  complete : task.enabled → ∀ window last, IsWindow intl task task.createdAt window →
    last ∈ windows → window ≤ last →
    Passed s task.id window ∨ window ∈ windows ∨ ∃ late ∈ windows, window ≤ late ∧ late < bootAt

variable {intl}

variable {bootAt : ℤ} {s : State}

/-- No windows are contiguous. -/
theorem contiguous_nil :
  Contiguous intl s bootAt task []
  := by
  constructor <;> simp

variable {windows : List ℤ}

/-- Whether windows are contiguous depends on the cursor of the task alone. -/
theorem Contiguous.congr {t : State} (h : Contiguous intl s bootAt task windows)
    (hcur : t.store.cursors task.id = s.store.cursors task.id) :
  Contiguous intl t bootAt task windows
  := by
  have hpass : ∀ window, Passed t task.id window ↔ Passed s task.id window := by
    intro window
    rw [Passed, Passed, hcur]
  constructor
  · exact h.ascending
  · intro window hwin
    rw [hpass]
    exact h.ahead window hwin
  · exact h.due
  · intro hon window last hwin hlast hle
    rw [hpass]
    exact h.complete hon window last hwin hlast hle

/-- What is left after the first window has been booked. -/
theorem Contiguous.tail {t : State} {first : ℤ}
    (h : Contiguous intl s bootAt task (first :: windows))
    (hcursor : t.store.cursors task.id = some first) :
  Contiguous intl t bootAt task windows
  := by
  obtain ⟨hfirst, hasc⟩ := pairwise_cons.mp h.ascending
  have hpass : ∀ window, Passed t task.id window ↔ window ≤ first := by
    intro window
    rw [Passed, hcursor]
    simp
  constructor
  · exact hasc
  · intro window hwin
    rw [hpass, not_le]
    exact ⟨(h.ahead window (by simp [hwin])).1, hfirst window hwin⟩
  · intro window hwin
    exact h.due window (mem_of_mem_tail hwin)
  intro hon window last hwin hlast hle
  rw [hpass]
  rcases h.complete hon window last hwin (by simp [hlast]) hle with
    ⟨cursor, hcur, hle'⟩ | hmem | ⟨late, hlate, hle', hboot⟩
  · left
    by_contra hlt
    exact (h.ahead first (by simp)).2 ⟨cursor, hcur, by omega⟩
  · rcases mem_cons.mp hmem with rfl | hmem
    · exact .inl le_rfl
    · exact .inr (.inl hmem)
  · rcases mem_cons.mp hlate with rfl | hlate
    · exact .inl hle'
    · exact .inr (.inr ⟨late, hlate, hle', hboot⟩)

/-- Booking the first of the windows moves the cursor there. -/
theorem Contiguous.cursor_book {first : ℤ} (h : Contiguous intl s bootAt task (first :: windows))
    (retention : ℕ) (status : TaskRunStatus) :
  (s.book retention bootAt task.id status first).store.cursors task.id = some first
  := by
  obtain ⟨hwin, hahead⟩ := h.ahead first (by simp)
  have hpos := Ascending.lt_of_reaches (fun _ _ => lt_nextWindow intl) hwin
  have hmade := task.createdAt_pos
  simp only [State.book, TaskSnapshot.recordRun, Function.update_self, Option.some.injEq]
  apply max_eq_right
  cases hcur : s.store.cursors task.id with
  | none => simp only [Option.getD_none]; omega
  | some cursor =>
    rw [Option.getD_some]
    by_contra hlt
    exact hahead ⟨cursor, hcur, by omega⟩

/-- Booking moves no other cursor. -/
theorem cursor_book_of_ne {retention : ℕ} {at_ : ℤ} {id other : String}
    {status : TaskRunStatus} (hne : other ≠ id) :
  (s.book retention bootAt id status at_).store.cursors other = s.store.cursors other
  := by
  simp [State.book, TaskSnapshot.recordRun, hne]

/-- What has been accounted for stays so. -/
theorem Accounted.book {retention : ℕ} {at_ window : ℤ} {id other : String}
    {status : TaskRunStatus} (h : Accounted s other window) :
  Accounted (s.book retention bootAt id status at_) other window
  := by
  obtain ⟨booking, hbooking, h⟩ := h
  exact ⟨booking, by simp [State.book, hbooking], h⟩

/-- When the first of the windows is booked everything up to it is accounted for. -/
theorem Contiguous.accounted {retention : ℕ} {first : ℤ} {status : TaskRunStatus}
    (h : Contiguous intl s bootAt task (first :: windows)) (hon : task.enabled)
    (hold : ∀ window, IsWindow intl task task.createdAt window → Passed s task.id window →
      Accounted s task.id window)
    {window : ℤ} (hwin : IsWindow intl task task.createdAt window) (hle : window ≤ first) :
  Accounted (s.book retention bootAt task.id status first) task.id window
  := by
  obtain ⟨hfirst, -⟩ := pairwise_cons.mp h.ascending
  have hrow : (⟨task.id, status, first, bootAt⟩ : Booking) ∈
      (s.book retention bootAt task.id status first).history := by
    simp [State.book]
  rcases h.complete hon window first hwin (by simp) hle with
    hpass | hmem | ⟨late, hlate, hle', hboot⟩
  · exact (hold window hwin hpass).book
  · rcases mem_cons.mp hmem with rfl | hmem
    · exact ⟨_, hrow, rfl, .inl rfl⟩
    · have hlt := hfirst window hmem
      omega
  rcases mem_cons.mp hlate with rfl | hlate
  · exact ⟨_, hrow, rfl, .inr ⟨hle', hboot⟩⟩
  · have hdue := h.due late hlate
    omega

/-- The rows so far: every window up to a cursor has one, the cursors are at windows, and what
has been launched, once each, is behind them. -/
structure Sound (intl : Intl) (set : TaskSet) (s : State) : Prop where
  tasks : s.store.tasks = set.tasks
  cursor : ∀ task ∈ set.tasks, ∀ cursor, s.store.cursors task.id = some cursor →
    IsWindow intl task task.createdAt cursor
  accounted : ∀ task ∈ set.tasks, task.enabled → ∀ window,
    IsWindow intl task task.createdAt window → Passed s task.id window →
    Accounted s task.id window
  launched : ∀ entry ∈ s.launched, Passed s entry.1 entry.2
  once : s.launched.Nodup

/-- What a tick is evaluated with when it loads the snapshot. -/
def State.input (s : State) (p : Process) (now : ℤ) : ScheduleTickInput where
  now := now
  bootAt := p.bootAt
  tasks := s.store.tasks
  cursors := s.store.cursors
  runningTaskIds := p.inFlight.map (·.1)

variable {set : TaskSet}

/-- The windows of a task that a tick books when it has loaded the snapshot. -/
theorem Sound.pending_load (h : Sound intl set s) {p : Process}
    {now : ℤ} (htask : task ∈ set.tasks) (hon : task.enabled) :
  (¬ Waits (s.input p now) task → pending task.id (works (evaluateTick intl (s.input p now))) =
      (lateWindows intl (s.input p now) task).getLast?.toList ++
        dueWindows intl (s.input p now) task) ∧
  (pending task.id (works (evaluateTick intl (s.input p now))) =
      (lateWindows intl (s.input p now) task).getLast?.toList ++
        dueWindows intl (s.input p now) task ∨
    pending task.id (works (evaluateTick intl (s.input p now))) =
      (lateWindows intl (s.input p now) task).getLast?.toList ∨
    pending task.id (works (evaluateTick intl (s.input p now))) = [])
  := by
  apply Daemon.pending_load intl
  · change task ∈ s.store.tasks
    rw [h.tasks]
    exact htask
  · change (s.store.tasks.map (·.id)).Nodup
    rw [h.tasks]
    exact set.distinct
  · exact hon

/-- A task that is not enabled has no windows to book. -/
theorem Sound.pending_disabled (h : Sound intl set s) {p : Process}
    {now : ℤ} (htask : task ∈ set.tasks) (hdisabled : ¬ task.enabled) :
  pending task.id (works (evaluateTick intl (s.input p now))) = []
  := by
  obtain ⟨before, after, htasks⟩ := append_of_mem htask
  have hids : ∀ other ∈ before ++ after, other.id ≠ task.id := by
    apply others_distinct htasks set.distinct
  have hinput : (s.input p now).tasks = before ++ task :: after := h.tasks.trans htasks
  rw [pending_works, evaluateTick_of intl hinput hids, evaluateTask, if_neg hdisabled]
  rfl

/-- The windows a tick looks at are those past the cursor, up to the last of them. -/
theorem Sound.tickWindows (h : Sound intl set s) (p : Process)
    (now : ℤ) (htask : task ∈ set.tasks) :
  (∀ window ∈ tickWindows intl (s.input p now) task,
    IsWindow intl task task.createdAt window ∧ ¬ Passed s task.id window) ∧
  (∀ window, ∀ last ∈ tickWindows intl (s.input p now) task,
    IsWindow intl task task.createdAt window → window ≤ last →
    Passed s task.id window ∨ window ∈ tickWindows intl (s.input p now) task)
  := by
  have hnext : ∀ a b, nextWindow intl task a = some b → a < b := fun _ _ => lt_nextWindow intl
  have hwindows : Scheduler.tickWindows intl (s.input p now) task =
      Ascending.upTo (nextWindow intl task) now MAX_WINDOWS_PER_TICK
        ((s.store.cursors task.id).getD task.createdAt) := rfl
  rw [hwindows]
  -- a window that has not been passed comes after the cursor
  have hreach : ∀ window, IsWindow intl task task.createdAt window → ¬ Passed s task.id window →
      IsWindow intl task ((s.store.cursors task.id).getD task.createdAt) window := by
    intro window hwin hahead
    cases hcur : s.store.cursors task.id with
    | none => exact hwin
    | some cursor =>
      apply Ascending.reaches_of_lt hnext (h.cursor task htask cursor hcur) hwin
      by_contra hlt
      exact hahead ⟨cursor, hcur, by omega⟩
  constructor
  · intro window hmem
    have hwin := (Ascending.mem_upTo hmem).1
    have hlt := Ascending.lt_of_reaches hnext hwin
    cases hcur : s.store.cursors task.id with
    | none =>
      rw [hcur] at hwin
      refine ⟨hwin, ?_⟩
      rintro ⟨cursor, hcur', -⟩
      rw [hcur] at hcur'
      cases hcur'
    | some cursor =>
    rw [hcur, Option.getD_some] at hwin hlt
    refine ⟨(h.cursor task htask cursor hcur).trans hwin, ?_⟩
    rintro ⟨cursor', hcur', hle⟩
    obtain rfl := Option.some.inj (hcur.symm.trans hcur')
    omega
  intro window last hlast hwin hle
  by_cases hpass : Passed s task.id window
  · exact .inl hpass
  right
  have hmem : window ∈ Ascending.points (nextWindow intl task) now
      ((s.store.cursors task.id).getD task.createdAt) := by
    rw [Ascending.mem_points_iff hnext]
    exact ⟨hreach window hwin hpass, hle.trans (Ascending.mem_upTo hlast).2⟩
  apply Ascending.mem_upTo_of_le hnext hlast hmem hle

/-- A window before the start of the daemon that a tick looks at is not past the latest. -/
theorem le_late {input : ScheduleTickInput} {window : ℤ}
    (hwin : window ∈ Scheduler.tickWindows intl input task) (hlate : window < input.bootAt) :
  ∃ late ∈ (lateWindows intl input task).getLast?, window ≤ late ∧ late < input.bootAt
  := by
  have hmem : window ∈ lateWindows intl input task := by
    rw [lateWindows, mem_filter, decide_eq_true_eq]
    exact ⟨hwin, hlate⟩
  have hasc : (lateWindows intl input task).Pairwise (· < ·) :=
    (Ascending.pairwise_upTo (fun _ _ => lt_nextWindow intl) _ _).filter _
  rcases eq_nil_or_concat (lateWindows intl input task) with hnil | ⟨init, late, hlast⟩
  · rw [hnil] at hmem
    cases hmem
  rw [concat_eq_append] at hlast
  have hin : late ∈ lateWindows intl input task := by simp [hlast]
  refine ⟨late, by simp [hlast], ?_, of_decide_eq_true (mem_filter.mp hin).2⟩
  rw [hlast] at hmem hasc
  rcases mem_append.mp hmem with hmem | hmem
  · exact ((pairwise_append.mp hasc).2.2 window hmem late (by simp)).le
  · exact (mem_singleton.mp hmem).le

/-- What a tick is going to book when it has loaded the snapshot is contiguous. -/
theorem Sound.contiguous_load (h : Sound intl set s) {p : Process}
    {now : ℤ} (htask : task ∈ set.tasks) :
  Contiguous intl s p.bootAt task (pending task.id (works (evaluateTick intl (s.input p now))))
  := by
  obtain ⟨hahead, hpre⟩ := h.tickWindows p now htask
  have hasc : (Scheduler.tickWindows intl (s.input p now) task).Pairwise (· < ·) :=
    Ascending.pairwise_upTo (fun _ _ => lt_nextWindow intl) _ _
  have hdue : ∀ window ∈ dueWindows intl (s.input p now) task,
      window ∈ Scheduler.tickWindows intl (s.input p now) task ∧ p.bootAt ≤ window := by
    intro window hwin
    obtain ⟨hwin, hboot⟩ := mem_filter.mp hwin
    exact ⟨hwin, of_decide_eq_true hboot⟩
  have hlate : ∀ window ∈ (lateWindows intl (s.input p now) task).getLast?.toList,
      window ∈ Scheduler.tickWindows intl (s.input p now) task ∧ window < p.bootAt := by
    intro window hwin
    rw [Option.mem_toList] at hwin
    obtain ⟨hwin, hboot⟩ := mem_filter.mp (mem_of_mem_getLast? hwin)
    exact ⟨hwin, of_decide_eq_true hboot⟩
  have hpair : ((lateWindows intl (s.input p now) task).getLast?.toList).Pairwise (· < ·) := by
    cases (lateWindows intl (s.input p now) task).getLast? <;> simp
  by_cases hon : task.enabled
  · rcases (h.pending_load htask hon).2 with hpend | hpend | hpend
    · rw [hpend]
      constructor
      · rw [pairwise_append]
        refine ⟨hpair, hasc.filter _, ?_⟩
        intro late hl due hd
        exact (hlate late hl).2.trans_le (hdue due hd).2
      · intro window hwin
        rcases mem_append.mp hwin with hwin | hwin
        · exact hahead window (hlate window hwin).1
        · exact hahead window (hdue window hwin).1
      · intro window hwin
        cases hlast : (lateWindows intl (s.input p now) task).getLast? with
        | none =>
          rw [hlast] at hwin
          exact (hdue window (mem_of_mem_tail hwin)).2
        | some late =>
          rw [hlast] at hwin
          exact (hdue window hwin).2
      intro _ window last hwin hlast hle
      have hin : last ∈ Scheduler.tickWindows intl (s.input p now) task := by
        rcases mem_append.mp hlast with hlast | hlast
        · exact (hlate last hlast).1
        · exact (hdue last hlast).1
      rcases hpre window last hin hwin hle with hpass | hmem
      · exact .inl hpass
      right
      by_cases hboot : window < p.bootAt
      · obtain ⟨late, hl, hle', hlt⟩ := le_late hmem hboot
        refine .inr ⟨late, ?_, hle', hlt⟩
        rw [mem_append, Option.mem_toList]
        exact .inl hl
      · left
        rw [mem_append, dueWindows, mem_filter, decide_eq_true_eq]
        exact .inr ⟨hmem, not_lt.mp hboot⟩
    · rw [hpend]
      constructor
      · exact hpair
      · intro window hwin
        exact hahead window (hlate window hwin).1
      · intro window hwin
        cases hlast : (lateWindows intl (s.input p now) task).getLast? with
        | none | some late => simp [hlast] at hwin
      intro _ window last hwin hlast hle
      rcases hpre window last (hlate last hlast).1 hwin hle with hpass | hmem
      · exact .inl hpass
      · exact .inr (.inr ⟨last, hlast, hle, (hlate last hlast).2⟩)
    · rw [hpend]
      exact contiguous_nil
  · rw [h.pending_disabled htask hon]
    exact contiguous_nil

end Booked

/-! ### What a step preserves -/

section Steps

variable {intl : Intl} {set : TaskSet} {retention : ℕ}

/-- The tasks a step of a tick is about. -/
def Work.tasks : Work → List TaskDefinition
  | .record task _ _ => [task]
  | .group fires => fires.map (·.task)
  | .launch task _ => [task]
  | .spawn task _ _ => [task]

/-- What is left of a tick: contiguous windows of each task, those of a group last, and at most
one run to spawn, which comes first and whose window has been booked but not launched. -/
structure Steady (intl : Intl) (set : TaskSet) (s : State) (bootAt : ℤ) (left : List Work) :
    Prop where
  contiguous : ∀ task ∈ set.tasks, Contiguous intl s bootAt task (pending task.id left)
  tasks : ∀ next ∈ left, ∀ task ∈ next.tasks, task ∈ set.tasks
  last : ∀ before fires after, left = before ++ .group fires :: after →
    ∀ fire ∈ fires, pending fire.task.id after = []
  spawnFirst : ∀ next ∈ left.tail, ∀ task at_ runId, next ≠ .spawn task at_ runId
  spawn : ∀ task at_ runId, left.head? = some (.spawn task at_ runId) →
    Passed s task.id at_ ∧ (task.id, at_) ∉ s.launched

/-- The rows are sound, and at most one tick has something left, which is steady. -/
structure Inv (intl : Intl) (set : TaskSet) (s : State) : Prop where
  sound : Sound intl set s
  others : ∀ p, s.process = some p → ∀ (i j : ℕ) (left other : List Work), i ≠ j →
    p.ticks[i]? = some left → p.ticks[j]? = some other → left = [] ∨ other = []
  steady : ∀ p, s.process = some p → ∀ left ∈ p.ticks, left ≠ [] → Steady intl set s p.bootAt left

/-- No tick is in progress. -/
def Idle (s : State) : Prop :=
  ∀ p, s.process = some p → ∀ left ∈ p.ticks, left = []

variable {task : TaskDefinition}

/-- Of two tasks with the same id. -/
theorem TaskSet.eq_of_id {other : TaskDefinition} (htask : task ∈ set.tasks)
    (hother : other ∈ set.tasks) (hid : other.id = task.id) :
  other = task
  := inj_on_of_nodup_map set.distinct hother htask hid

variable {s t : State}

/-- The rows are sound where they and what has been launched are the same. -/
theorem Sound.congr (h : Sound intl set s) (htasks : t.store.tasks = s.store.tasks)
    (hcurs : t.store.cursors = s.store.cursors) (hhist : t.history = s.history)
    (hlaun : t.launched = s.launched) :
  Sound intl set t
  := by
  have hpass : ∀ id window, Passed t id window ↔ Passed s id window := by
    intro id window
    rw [Passed, Passed, hcurs]
  have hacct : ∀ id window, Accounted t id window ↔ Accounted s id window := by
    intro id window
    rw [Accounted, Accounted, hhist]
  constructor
  · rw [htasks]
    exact h.tasks
  · rw [hcurs]
    exact h.cursor
  · intro task htask hon window hwin hp
    rw [hacct]
    exact h.accounted task htask hon window hwin ((hpass _ _).mp hp)
  · intro entry hentry
    rw [hlaun] at hentry
    exact (hpass _ _).mpr (h.launched entry hentry)
  · rw [hlaun]
    exact h.once

variable {bootAt : ℤ}

/-- What is left of a tick is steady where the cursors and what has been launched are the
same. -/
theorem Steady.congr {left : List Work}
    (h : Steady intl set s bootAt left) (hcurs : t.store.cursors = s.store.cursors)
    (hlaun : t.launched = s.launched) :
  Steady intl set t bootAt left
  := by
  constructor
  · intro task htask
    apply (h.contiguous task htask).congr
    rw [hcurs]
  · exact h.tasks
  · exact h.last
  · exact h.spawnFirst
  · intro task at_ runId hhead
    rw [Passed, hcurs, hlaun]
    exact h.spawn task at_ runId hhead

variable {at_ : ℤ}

/-- A row for the first of the windows that a tick has left keeps the rows sound. -/
theorem Sound.book (h : Sound intl set s) (retention : ℕ) (status : TaskRunStatus)
    {windows : List ℤ} (htask : task ∈ set.tasks)
    (hcont : Contiguous intl s bootAt task (at_ :: windows)) :
  Sound intl set (s.book retention bootAt task.id status at_)
  := by
  have hcur := hcont.cursor_book retention status
  have hmono : ∀ id window, Passed s id window →
      Passed (s.book retention bootAt task.id status at_) id window := by
    rintro id window ⟨cursor, hc, hle⟩
    by_cases hid : id = task.id
    · subst hid
      refine ⟨at_, hcur, ?_⟩
      by_contra hlt
      exact (hcont.ahead at_ (by simp)).2 ⟨cursor, hc, by omega⟩
    · exact ⟨cursor, (cursor_book_of_ne hid).trans hc, hle⟩
  constructor
  · exact h.tasks
  · intro other hother cursor hc
    by_cases hid : other.id = task.id
    · obtain rfl := TaskSet.eq_of_id htask hother hid
      obtain rfl := Option.some.inj (hcur.symm.trans hc)
      exact (hcont.ahead _ (by simp)).1
    · rw [cursor_book_of_ne hid] at hc
      exact h.cursor other hother cursor hc
  · intro other hother hon window hwin hpass
    by_cases hid : other.id = task.id
    · obtain rfl := TaskSet.eq_of_id htask hother hid
      obtain ⟨cursor, hc, hle⟩ := hpass
      obtain rfl := Option.some.inj (hcur.symm.trans hc)
      exact hcont.accounted hon (h.accounted _ hother hon) hwin hle
    · obtain ⟨cursor, hc, hle⟩ := hpass
      rw [cursor_book_of_ne hid] at hc
      exact (h.accounted other hother hon window hwin ⟨cursor, hc, hle⟩).book
  · intro entry hentry
    exact hmono _ _ (h.launched entry hentry)
  · exact h.once

variable {next : Work} {rest : List Work}

/-- What is left of a tick after a step of it, if the windows are still contiguous. -/
theorem Steady.behind (h : Steady intl set s bootAt (next :: rest))
    (hcont : ∀ task ∈ set.tasks, Contiguous intl t bootAt task (pending task.id rest)) :
  Steady intl set t bootAt rest
  := by
  use hcont
  · intro next' hnext'
    exact h.tasks next' (mem_cons_of_mem _ hnext')
  · intro before fires after hrest
    apply h.last (next :: before) fires after
    rw [hrest, cons_append]
  · intro next' hnext'
    exact h.spawnFirst next' (mem_of_mem_tail hnext')
  · intro task' at' runId hhead
    exact absurd rfl (h.spawnFirst _ (mem_of_mem_head? hhead) task' at' runId)

/-- What is left of a tick after it has booked a window. -/
theorem Steady.book
    (h : Steady intl set s bootAt (next :: rest)) (retention : ℕ) (status : TaskRunStatus)
    (htask : task ∈ set.tasks)
    (hwindows : ∀ id, next.windows id = if task.id = id then [at_] else []) :
  Contiguous intl s bootAt task (at_ :: pending task.id rest) ∧
    Steady intl set (s.book retention bootAt task.id status at_) bootAt rest
  := by
  have hcont : Contiguous intl s bootAt task (at_ :: pending task.id rest) := by
    have hall := h.contiguous task htask
    rw [pending_cons, hwindows, if_pos rfl] at hall
    exact hall
  refine ⟨hcont, h.behind ?_⟩
  intro other hother
  by_cases hid : other.id = task.id
  · obtain rfl := TaskSet.eq_of_id htask hother hid
    exact hcont.tail (hcont.cursor_book retention status)
  · have hall := h.contiguous other hother
    rw [pending_cons, hwindows, if_neg (Ne.symm hid), nil_append] at hall
    exact hall.congr (cursor_book_of_ne hid)

/-- Everything is in order where the rows, the ticks and what has been launched are the same. -/
theorem Inv.congr (h : Inv intl set s) (htasks : t.store.tasks = s.store.tasks)
    (hcurs : t.store.cursors = s.store.cursors) (hhist : t.history = s.history)
    (hlaun : t.launched = s.launched) (hprocess : ∀ p', t.process = some p' →
      ∃ p, s.process = some p ∧ p'.ticks = p.ticks ∧ p'.bootAt = p.bootAt) :
  Inv intl set t
  := by
  constructor
  · exact h.sound.congr htasks hcurs hhist hlaun
  · intro p' hp' i j left other hij hleft hother
    obtain ⟨p, hp, hticks, -⟩ := hprocess p' hp'
    rw [hticks] at hleft hother
    exact h.others p hp i j left other hij hleft hother
  intro p' hp' left hleft hne
  obtain ⟨p, hp, hticks, hboot⟩ := hprocess p' hp'
  rw [hticks] at hleft
  rw [hboot]
  exact (h.steady p hp left hleft hne).congr hcurs hlaun

/-- What is left of a tick when there was no room for a group. -/
theorem Steady.skipGroup {fires : List TaskFire}
    (h : Steady intl set s bootAt (.group fires :: rest)) :
  Steady intl set s bootAt rest
  := by
  apply h.behind
  intro task htask
  by_cases hmem : ∃ fire ∈ fires, fire.task.id = task.id
  · obtain ⟨fire, hfire, hid⟩ := hmem
    rw [← hid, h.last [] fires rest rfl fire hfire]
    exact contiguous_nil
  have hall := h.contiguous task htask
  have hnone : (Work.group fires).windows task.id = [] := by
    simp only [Work.windows, map_eq_nil_iff, filter_eq_nil_iff, decide_eq_true_eq]
    intro fire hfire hid
    exact hmem ⟨fire, hfire, hid⟩
  rw [pending_cons, hnone, nil_append] at hall
  exact hall

/-- What a group is worked off as. -/
theorem mem_groupWorks {fires : List TaskFire} (h : next ∈ groupWorks fires) :
  ∃ fire ∈ fires, next = .record fire.task .missed fire.scheduledFor ∨
    next = .launch fire.task fire.scheduledFor
  := by
  rcases eq_nil_or_concat fires with rfl | ⟨stale, latest, rfl⟩
  · cases h
  simp only [groupWorks, concat_eq_append, List.getLast?_append, List.getLast?_singleton,
    Option.some_or, dropLast_concat, mem_append, mem_map,
    mem_singleton] at h
  rcases h with ⟨fire, hfire, rfl⟩ | rfl
  · exact ⟨fire, by simp [hfire], .inl rfl⟩
  · exact ⟨latest, by simp, .inr rfl⟩

/-- What is left of a tick when there was room for a group. -/
theorem Steady.groupWorks {fires : List TaskFire}
    (h : Steady intl set s bootAt (.group fires :: rest)) :
  Steady intl set s bootAt (Daemon.groupWorks fires ++ rest)
  := by
  have hspawn : ∀ next ∈ Daemon.groupWorks fires ++ rest, ∀ task at_ runId,
      next ≠ .spawn task at_ runId := by
    intro next hnext task at_ runId
    rcases mem_append.mp hnext with hnext | hnext
    · obtain ⟨fire, -, rfl | rfl⟩ := mem_groupWorks hnext
      · simp
      · simp
    · exact h.spawnFirst next hnext task at_ runId
  constructor
  · intro task htask
    rw [pending_append, pending_groupWorks, ← pending_cons]
    exact h.contiguous task htask
  · intro next hnext task htask
    rcases mem_append.mp hnext with hnext | hnext
    · obtain ⟨fire, hfire, rfl | rfl⟩ := mem_groupWorks hnext
      all_goals
        rw [mem_singleton.mp htask]
        exact h.tasks (.group fires) (by simp) _ (mem_map_of_mem hfire)
    · exact h.tasks next (mem_cons_of_mem _ hnext) task htask
  · intro before fires' after hrest
    -- the works of the group are no group, so a group lies in the rest
    rcases append_eq_append_iff.mp hrest with ⟨mid, rfl, hmid⟩ | ⟨mid, hmid, hmid'⟩
    · apply h.last (.group fires :: mid) fires' after
      rw [hmid, cons_append]
    rcases mid with _ | ⟨next, mid⟩
    · apply h.last [.group fires] fires' after
      rw [nil_append] at hmid'
      rw [hmid', singleton_append]
    have hnext : Work.group fires' ∈ Daemon.groupWorks fires := by
      rw [hmid, (List.cons.inj hmid').1]
      simp
    obtain ⟨fire, -, habs | habs⟩ := mem_groupWorks hnext
    all_goals cases habs
  · intro next hnext task at_ runId
    exact hspawn next (mem_of_mem_tail hnext) task at_ runId
  · intro task at_ runId hhead
    exact absurd rfl (hspawn _ (mem_of_mem_head? hhead) task at_ runId)

/-- What is left of a tick when the row of a run has been written. -/
theorem Steady.spawning
    (h : Steady intl set s bootAt rest) (runId : ℕ) (htask : task ∈ set.tasks)
    (hnone : ∀ next ∈ rest, ∀ task at_ runId, next ≠ .spawn task at_ runId)
    (hpass : Passed s task.id at_) (hnew : (task.id, at_) ∉ s.launched) :
  Steady intl set s bootAt (.spawn task at_ runId :: rest)
  := by
  constructor
  · intro other hother
    rw [pending_cons, Work.windows, nil_append]
    exact h.contiguous other hother
  · intro next hnext other hother
    rcases mem_cons.mp hnext with rfl | hnext
    · rw [mem_singleton.mp hother]
      exact htask
    · exact h.tasks next hnext other hother
  · intro before fires after hrest
    cases before with
    | nil => cases hrest
    | cons next before =>
      obtain ⟨-, hrest⟩ := List.cons.inj hrest
      exact h.last before fires after hrest
  · exact hnone
  · intro task' at' runId' hhead
    obtain ⟨rfl, rfl, rfl⟩ : task = task' ∧ at_ = at' ∧ runId = runId' := by simpa using hhead
    exact ⟨hpass, hnew⟩

/-- What is left of a tick when a run has been spawned. -/
theorem Steady.spawned
    {runId : ℕ} (h : Steady intl set s bootAt (.spawn task at_ runId :: rest))
    (launched : List (String × ℤ)) :
  Steady intl set { s with launched := launched } bootAt rest
  := by
  apply h.behind
  intro other hother
  have hall := h.contiguous other hother
  rw [pending_cons, Work.windows, nil_append] at hall
  exact hall.congr rfl

/-- After a step of the only tick with something left, the rest of it is what is left. -/
theorem inv_left {p : Process} {i : ℕ} {left : List Work} (h : Inv intl set s)
    (hp : s.process = some p) (hi : p.ticks[i]? = some (next :: rest)) (hsound : Sound intl set t)
    (hstd : left ≠ [] → Steady intl set t p.bootAt left) :
  Inv intl set (t.left p i left)
  := by
  have hnone : ∀ j other, j ≠ i → p.ticks[j]? = some other → other = [] := by
    intro j other hj hother
    rcases h.others p hp i j _ _ (Ne.symm hj) hi hother with habs | hnil
    · cases habs
    · exact hnil
  constructor
  · exact hsound.congr rfl rfl rfl rfl
  · rintro p' hp' j k lj lk hjk hlj hlk
    cases hp'
    rw [List.getElem?_set] at hlj hlk
    by_cases hj : i = j
    · subst hj
      rw [if_neg hjk] at hlk
      exact .inr (hnone k lk (Ne.symm hjk) hlk)
    · rw [if_neg hj] at hlj
      exact .inl (hnone j lj (Ne.symm hj) hlj)
  rintro p' hp' l hl hne
  cases hp'
  obtain ⟨j, hj⟩ := mem_iff_getElem?.mp hl
  rw [List.getElem?_set] at hj
  by_cases hij : i = j
  · subst hij
    rw [if_pos rfl] at hj
    split_ifs at hj
    cases hj
    exact (hstd hne).congr rfl rfl
  · rw [if_neg hij] at hj
    exact absurd (hnone j l (Ne.symm hij) hj) hne

/-- A step of a tick keeps everything in order. -/
theorem inv_perform {p : Process} {i : ℕ} (h : Inv intl set s) (hp : s.process = some p)
    (hi : p.ticks[i]? = some (next :: rest)) (answer : Answer) :
  Inv intl set (perform retention s p i rest next answer)
  := by
  have hstd := h.steady p hp (next :: rest) (mem_of_getElem? hi) (by simp)
  have htask := hstd.tasks next (by simp)
  have hdrop : Inv intl set (s.left p i []) := inv_left h hp hi h.sound (fun hne => absurd rfl hne)
  cases next with
  | record task status at_ =>
    obtain ⟨hcont, hrest⟩ :=
      hstd.book retention status (htask task (by simp [Work.tasks]))
        (fun id => rfl)
    have hsound := h.sound.book retention status
      (htask task (by simp [Work.tasks])) hcont
    cases answer with
    | throws => exact hdrop
    | done | refused => exact inv_left h hp hi hsound (fun _ => hrest)
  | group fires =>
    have hroom : Inv intl set (if p.maxConcurrent ≤ p.inFlight.length then s.left p i rest
        else s.left p i (groupWorks fires ++ rest)) := by
      by_cases hfull : p.maxConcurrent ≤ p.inFlight.length
      · rw [if_pos hfull]
        exact inv_left h hp hi h.sound (fun _ => hstd.skipGroup)
      · rw [if_neg hfull]
        exact inv_left h hp hi h.sound (fun _ => hstd.groupWorks)
    cases answer with
    | throws | done | refused => exact hroom
  | launch task at_ =>
    cases answer with
    | throws => exact hdrop
    | refused =>
      obtain ⟨hcont, hrest⟩ := hstd.book retention .failed
        (htask task (by simp [Work.tasks])) (fun id => rfl)
      have hsound := h.sound.book retention .failed
        (htask task (by simp [Work.tasks])) hcont
      exact inv_left h hp hi hsound (fun _ => hrest)
    | done =>
    obtain ⟨hcont, hrest⟩ := hstd.book retention .running
      (htask task (by simp [Work.tasks])) (fun id => rfl)
    have hsound := h.sound.book retention .running
      (htask task (by simp [Work.tasks])) hcont
    apply inv_left h hp hi hsound
    intro _
    apply hrest.spawning s.nextRunId (htask task (by simp [Work.tasks]))
    · exact fun next hnext => hstd.spawnFirst next hnext
    · exact ⟨at_, hcont.cursor_book retention .running, le_rfl⟩
    · intro hlaun
      exact (hcont.ahead at_ (by simp)).2 (h.sound.launched _ hlaun)
  | spawn task at_ runId =>
  obtain ⟨hpass, hnew⟩ := hstd.spawn task at_ runId rfl
  have hsound : Sound intl set { s with launched := s.launched ++ [(task.id, at_)] } := by
    constructor
    · exact h.sound.tasks
    · exact h.sound.cursor
    · exact h.sound.accounted
    · intro entry hentry
      rcases mem_append.mp hentry with hentry | hentry
      · exact h.sound.launched entry hentry
      · rw [mem_singleton.mp hentry]
        exact hpass
    apply nodup_append.mpr
    refine ⟨h.sound.once, by simp, ?_⟩
    intro entry hentry entry' hentry' heq
    rw [mem_singleton.mp hentry'] at heq
    rw [heq] at hentry
    exact hnew hentry
  have hleft : Inv intl set (({ s with launched := s.launched ++ [(task.id, at_)] } : State).left
      p i rest) :=
    inv_left h hp hi hsound (fun _ => hstd.spawned _)
  have hspawn : Inv intl set { s with
      process := some { p with
        inFlight := p.inFlight.filter (·.1 ≠ task.id) ++ [(task.id, runId)]
        children := p.children ++ [(task.id, runId)]
        ticks := p.ticks.set i rest }
      launched := s.launched ++ [(task.id, at_)] } := by
    apply hleft.congr
    · rfl
    · rfl
    · rfl
    · rfl
    · intro p' hp'
      cases hp'
      exact ⟨_, rfl, rfl, rfl⟩
  cases answer with
  | throws | done | refused => exact hspawn

/-- What a tick has left when it has loaded the snapshot. -/
theorem Sound.steady_load (h : Sound intl set s) (p : Process) (now : ℤ) :
  Steady intl set s p.bootAt (works (evaluateTick intl (s.input p now)))
  := by
  have habout : ∀ result ∈ (s.input p now).tasks.map (evaluateTask intl (s.input p now)),
      ∃ task ∈ set.tasks, result.About task := by
    intro result hres
    obtain ⟨task, htask, rfl⟩ := mem_map.mp hres
    refine ⟨task, ?_, evaluateTask_about intl _ _⟩
    rw [← h.tasks]
    exact htask
  have hfires : ∀ group ∈ firesByTask
      ((evaluateTick intl (s.input p now)).fires.filter (¬ ·.queued)),
      ∀ fire ∈ group.2, fire.task ∈ set.tasks := by
    intro group hgroup fire hfire
    have hmem := mem_of_mem_filter (mem_of_mem_firesByTask hgroup hfire)
    obtain ⟨result, hres, hfire⟩ := mem_flatMap.mp hmem
    obtain ⟨task, htask, hres⟩ := habout result hres
    rw [hres.fires fire hfire]
    exact htask
  have hspawn : ∀ next ∈ works (evaluateTick intl (s.input p now)), ∀ task at_ runId,
      next ≠ .spawn task at_ runId := by
    rintro next hnext task at_ runId rfl
    simp [works] at hnext
  constructor
  · intro task htask
    exact h.contiguous_load htask
  · intro next hnext task htask
    simp only [works, mem_append, mem_map] at hnext
    rcases hnext with (⟨entry, hentry, rfl⟩ | ⟨entry, hentry, rfl⟩) | ⟨group, hgroup, rfl⟩
    · rw [mem_singleton.mp htask]
      obtain ⟨result, hres, hentry⟩ := mem_flatMap.mp (mem_of_mem_filter hentry)
      obtain ⟨owner, howner, hres⟩ := habout result hres
      rw [hres.missed entry hentry]
      exact howner
    · rw [mem_singleton.mp htask]
      obtain ⟨result, hres, hentry⟩ := mem_flatMap.mp hentry
      obtain ⟨owner, howner, hres⟩ := habout result hres
      rw [hres.skipped entry hentry]
      exact howner
    · obtain ⟨fire, hfire, rfl⟩ := mem_map.mp htask
      exact hfires group hgroup fire hfire
  · intro before fires after hworks fire hfire
    -- the groups come last, and those after one are of other tasks
    have hsorted := sorted_firesByTask
      ((evaluateTick intl (s.input p now)).fires.filter (¬ ·.queued))
    rw [works] at hworks
    rcases append_eq_append_iff.mp hworks with ⟨mid, rfl, hmid⟩ | ⟨mid, hmid, hmid'⟩
    · exact pending_after_group hsorted hmid hfire
    rcases mid with _ | ⟨next, mid⟩
    · apply pending_after_group hsorted _ hfire
      · exact []
      · exact hmid'.symm
    rw [(List.cons.inj hmid').1.symm] at hmid
    have hgroup : Work.group fires ∈ before ++ Work.group fires :: mid := by simp
    rw [← hmid] at hgroup
    simp at hgroup
  · intro next hnext
    exact hspawn next (mem_of_mem_tail hnext)
  · intro task at_ runId hhead
    exact absurd rfl (hspawn _ (mem_of_mem_head? hhead) task at_ runId)

/-- A step of the daemon keeps everything in order, if a tick that loads the snapshot is the only
one in progress. -/
theorem inv_step (h : Inv intl set s) (action : Action)
    (halone : ∀ now maxConcurrent, action = .load now maxConcurrent → Idle s) :
  Inv intl set (step intl retention s action)
  := by
  cases action with
  | boot now =>
    cases hp : s.process with
    | some p =>
      rw [step, hp]
      exact h
    | none =>
    rw [step, hp]
    constructor
    · exact h.sound.congr rfl rfl rfl rfl
    · intro p hp' i j left other _ hleft
      cases hp'
      simp at hleft
    · intro p hp' left hleft
      cases hp'
      cases hleft
  | halt =>
    constructor
    · exact h.sound.congr rfl rfl rfl rfl
    all_goals
      intro p hp
      cases hp
  | load now maxConcurrent =>
    cases hp : s.process with
    | none =>
      rw [step, hp]
      exact h
    | some p =>
    have hidle := halone now maxConcurrent rfl p hp
    have hstep : step intl retention s (.load now maxConcurrent) =
        { s with process := some { p with
            maxConcurrent
            ticks := p.ticks ++ [works (evaluateTick intl (s.input p now))] } } := by
      rw [step, hp]
      rfl
    rw [hstep]
    constructor
    · exact h.sound.congr rfl rfl rfl rfl
    · intro p' hp' i j left other hij hleft hother
      cases hp'
      rcases lt_or_ge i p.ticks.length with hi | hi
      · rw [List.getElem?_append_left hi] at hleft
        exact .inl (hidle left (mem_of_getElem? hleft))
      rcases lt_or_ge j p.ticks.length with hj | hj
      · rw [List.getElem?_append_left hj] at hother
        exact .inr (hidle other (mem_of_getElem? hother))
      have hi' := (List.getElem?_eq_some_iff.mp hleft).1
      have hj' := (List.getElem?_eq_some_iff.mp hother).1
      rw [length_append, length_singleton] at hi' hj'
      omega
    intro p' hp' left hleft hne
    cases hp'
    rcases mem_append.mp hleft with hleft | hleft
    · exact absurd (hidle left hleft) hne
    · rw [mem_singleton.mp hleft]
      exact (h.sound.steady_load p now).congr rfl rfl
  | work tick answer =>
    cases hp : s.process with
    | none =>
      rw [step, hp]
      exact h
    | some p =>
    rcases htick : p.ticks[tick]? with _ | (_ | ⟨next, rest⟩)
    · simp only [step, hp, htick]
      exact h
    · simp only [step, hp, htick]
      exact h
    · simp only [step, hp, htick]
      exact inv_perform h hp htick answer
  | finish run completed =>
  cases hp : s.process with
  | none =>
    rw [step, hp]
    exact h
  | some p =>
  cases hrun : p.children[run]? with
  | none =>
    simp only [step, hp, hrun]
    exact h
  | some child =>
  simp only [step, hp, hrun]
  apply h.congr
  · rfl
  · rfl
  · rfl
  · rfl
  · intro p' hp'
    cases hp'
    exact ⟨p, hp, rfl, rfl⟩

/-- No tick of a run loads the snapshot while another is in progress. -/
def Orderly (intl : Intl) (retention : ℕ) (set : TaskSet) (actions : ℕ → Action) : Prop :=
  ∀ n now maxConcurrent, actions n = .load now maxConcurrent →
    Idle (states intl retention set actions n)

/-- Along a run in which ticks do not overlap everything is in order. -/
theorem inv_states {actions : ℕ → Action} (h : Orderly intl retention set actions) (n : ℕ) :
  Inv intl set (states intl retention set actions n)
  := by
  induction n with
  | zero =>
    constructor
    · constructor
      · rfl
      · intro task _ cursor hcur
        cases hcur
      · rintro task _ _ window _ ⟨cursor, hcur, -⟩
        cases hcur
      · intro entry hentry
        cases hentry
      · exact nodup_nil
    all_goals
      intro p hp
      cases hp
  | succ n ih => exact inv_step ih (actions n) (h n)

end Steps

/-! ### Ticks that get to a task -/

section Progress

variable {intl : Intl} {set : TaskSet} {retention : ℕ}

/-- The action ends a tick before its time or puts off the fires of the task. -/
def HoldsBack (s : State) (id : String) : Action → Prop
  | .halt => True
  | .work tick answer =>
    answer = .throws ∨ ∃ p fires rest, s.process = some p ∧
      p.ticks[tick]? = some (.group fires :: rest) ∧ p.maxConcurrent ≤ p.inFlight.length ∧
      ∃ fire ∈ fires, fire.task.id = id
  | _ => False

/-- A tick that loads the snapshot at the `n`-th action, where the task does not wait, and that
comes to its end before the `m`-th with nothing holding it back from the task. -/
structure Serves (intl : Intl) (retention : ℕ) (set : TaskSet) (actions : ℕ → Action)
    (task : TaskDefinition) (now : ℤ) (n m : ℕ) : Prop where
  lt : n < m
  load : ∃ maxConcurrent, actions n = .load now maxConcurrent
  ready : ∃ p, (states intl retention set actions n).process = some p ∧
    ¬ Waits ((states intl retention set actions n).input p now) task
  undisturbed : ∀ k, n < k → k < m →
    ¬ HoldsBack (states intl retention set actions k) task.id (actions k)
  ended : Idle (states intl retention set actions m)

/-- Ticks that get to the task keep coming. -/
def KeepsServing (intl : Intl) (retention : ℕ) (set : TaskSet) (actions : ℕ → Action)
    (task : TaskDefinition) : Prop :=
  ∀ now n, ∃ now' n' m, now ≤ now' ∧ n ≤ n' ∧ Serves intl retention set actions task now' n' m

/-- A window that has been passed or that a tick in progress is going to book. -/
def Coming (s : State) (id : String) (window : ℤ) : Prop :=
  Passed s id window ∨ ∃ p left, s.process = some p ∧ left ∈ p.ticks ∧ window ∈ pending id left

variable {id : String} {window : ℤ} {s : State}

/-- A cursor never moves back. -/
theorem Passed.book {at_ : ℤ} {other : String} {status : TaskRunStatus}
    (h : Passed s other window) (bootAt : ℤ) :
  Passed (s.book retention bootAt id status at_) other window
  := by
  obtain ⟨cursor, hcur, hle⟩ := h
  by_cases hid : other = id
  · subst hid
    refine ⟨max cursor at_, ?_, hle.trans (le_max_left _ _)⟩
    simp [State.book, TaskSnapshot.recordRun, hcur]
  · exact ⟨cursor, (cursor_book_of_ne hid).trans hcur, hle⟩

/-- The window of a row has been passed. -/
theorem passed_book {at_ : ℤ} {status : TaskRunStatus} (bootAt : ℤ) :
  Passed (s.book retention bootAt id status at_) id at_
  := ⟨_, Function.update_self _ _ _, le_max_right _ _⟩

/-- A step of a tick moves no cursor back. -/
theorem Passed.perform {p : Process} {tick : ℕ} {rest : List Work} {next : Work}
    {answer : Answer} (h : Passed s id window) :
  Passed (perform retention s p tick rest next answer) id window
  := by
  cases next with
  | record task status at_ =>
    cases answer with
    | throws => exact h
    | done | refused => exact h.book p.bootAt
  | group fires =>
    have hgroup : Passed (if p.maxConcurrent ≤ p.inFlight.length then s.left p tick rest
        else s.left p tick (groupWorks fires ++ rest)) id window := by
      split_ifs
      all_goals exact h
    cases answer with
    | throws | done | refused => exact hgroup
  | launch task at_ =>
    cases answer with
    | throws => exact h
    | done | refused => exact h.book p.bootAt
  | spawn task at_ runId =>
    cases answer with
    | throws | done | refused => exact h

/-- No step moves a cursor back. -/
theorem Passed.step (h : Passed s id window) (action : Action) :
  Passed (step intl retention s action) id window
  := by
  cases action with
  | halt => exact h
  | boot now | load now maxConcurrent =>
    cases hp : s.process with
    | some p | none =>
      simp only [Daemon.step, hp]
      exact h
  | work tick answer =>
    cases hp : s.process with
    | none =>
      simp only [Daemon.step, hp]
      exact h
    | some p =>
    rcases htick : p.ticks[tick]? with _ | (_ | ⟨next, rest⟩)
    · simp only [Daemon.step, hp, htick]
      exact h
    · simp only [Daemon.step, hp, htick]
      exact h
    · simp only [Daemon.step, hp, htick]
      exact h.perform
  | finish run completed =>
  cases hp : s.process with
  | none =>
    simp only [Daemon.step, hp]
    exact h
  | some p =>
  cases hrun : p.children[run]? with
  | none | some child =>
    simp only [Daemon.step, hp, hrun]
    exact h

/-- A window a tick is going to book keeps coming while the tick goes on, if nothing holds it
back from the task. -/
theorem coming_perform {p : Process} {tick : ℕ} {rest : List Work} {next : Work}
    {answer : Answer} (hp : s.process = some p) (htick : p.ticks[tick]? = some (next :: rest))
    (hwin : window ∈ pending id (next :: rest)) (hfree : ¬ HoldsBack s id (.work tick answer)) :
  Coming (perform retention s p tick rest next answer) id window
  := by
  simp only [HoldsBack, not_or] at hfree
  obtain ⟨hthrows, hroom⟩ := hfree
  have hlt := (List.getElem?_eq_some_iff.mp htick).1
  have hset : ∀ left : List Work, left ∈ p.ticks.set tick left := by
    intro left
    exact List.mem_set hlt left
  rw [pending_cons, mem_append] at hwin
  cases next with
  | record task status at_ =>
    have hdone : Coming ((s.book retention p.bootAt task.id status at_).left p tick rest) id
        window := by
      rcases hwin with hwin | hwin
      · simp only [Work.windows] at hwin
        split_ifs at hwin with hid
        · obtain rfl := mem_singleton.mp hwin
          rw [← hid]
          exact .inl (passed_book p.bootAt)
        · cases hwin
      · exact .inr ⟨_, rest, rfl, hset rest, hwin⟩
    cases answer with
    | throws => exact absurd rfl hthrows
    | done | refused => exact hdone
  | group fires =>
    have hgroup : Coming (if p.maxConcurrent ≤ p.inFlight.length then s.left p tick rest
        else s.left p tick (groupWorks fires ++ rest)) id window := by
      by_cases hfull : p.maxConcurrent ≤ p.inFlight.length
      · rw [if_pos hfull]
        rcases hwin with hwin | hwin
        · simp only [Work.windows, mem_map, mem_filter, decide_eq_true_eq] at hwin
          obtain ⟨fire, ⟨hfire, hid⟩, -⟩ := hwin
          exact absurd ⟨p, fires, rest, hp, htick, hfull, fire, hfire, hid⟩ hroom
        · exact .inr ⟨_, rest, rfl, hset rest, hwin⟩
      rw [if_neg hfull]
      refine .inr ⟨_, groupWorks fires ++ rest, rfl, hset _, ?_⟩
      rw [pending_append, pending_groupWorks, mem_append]
      exact hwin
    cases answer with
    | throws => exact absurd rfl hthrows
    | done | refused => exact hgroup
  | launch task at_ =>
    cases answer with
    | throws => exact absurd rfl hthrows
    | done =>
      rcases hwin with hwin | hwin
      · simp only [Work.windows] at hwin
        split_ifs at hwin with hid
        · obtain rfl := mem_singleton.mp hwin
          rw [← hid]
          exact .inl (passed_book p.bootAt)
        · cases hwin
      · exact .inr ⟨_, _ :: rest, rfl, hset _, hwin⟩
    | refused =>
    rcases hwin with hwin | hwin
    · simp only [Work.windows] at hwin
      split_ifs at hwin with hid
      · obtain rfl := mem_singleton.mp hwin
        rw [← hid]
        exact .inl (passed_book p.bootAt)
      · cases hwin
    · exact .inr ⟨_, rest, rfl, hset rest, hwin⟩
  | spawn task at_ runId =>
  rcases hwin with hwin | hwin
  · cases hwin
  · cases answer with
    | throws => exact absurd rfl hthrows
    | done | refused => exact .inr ⟨_, rest, rfl, hset rest, hwin⟩

/-- A window keeps coming in every step that does not hold the task back. -/
theorem Coming.step (h : Coming s id window) (hinv : Inv intl set s) {action : Action}
    (halone : ∀ now maxConcurrent, action = .load now maxConcurrent → Idle s)
    (hfree : ¬ HoldsBack s id action) :
  Coming (step intl retention s action) id window
  := by
  rcases h with h | ⟨p, left, hp, hleft, hwin⟩
  · exact .inl (h.step action)
  have hne : left ≠ [] := by
    rintro rfl
    cases hwin
  cases action with
  | halt => exact absurd True.intro hfree
  | boot now =>
    simp only [Daemon.step, hp]
    exact .inr ⟨p, left, hp, hleft, hwin⟩
  | load now maxConcurrent => exact absurd (halone now maxConcurrent rfl p hp left hleft) hne
  | work tick answer =>
    rcases htick : p.ticks[tick]? with _ | (_ | ⟨next, rest⟩)
    · simp only [Daemon.step, hp, htick]
      exact .inr ⟨p, left, hp, hleft, hwin⟩
    · simp only [Daemon.step, hp, htick]
      exact .inr ⟨p, left, hp, hleft, hwin⟩
    simp only [Daemon.step, hp, htick]
    obtain ⟨i, hi⟩ := mem_iff_getElem?.mp hleft
    have hsame : left = next :: rest := by
      by_cases hij : i = tick
      · subst hij
        exact Option.some.inj (hi.symm.trans htick)
      · rcases hinv.others p hp i tick _ _ hij hi htick with h | h
        · exact absurd h hne
        · cases h
    rw [hsame] at hwin
    exact coming_perform hp htick hwin hfree
  | finish run completed =>
  cases hrun : p.children[run]? with
  | none =>
    simp only [Daemon.step, hp, hrun]
    exact .inr ⟨p, left, hp, hleft, hwin⟩
  | some child =>
    simp only [Daemon.step, hp, hrun]
    exact .inr ⟨_, left, rfl, hleft, hwin⟩

/-- The window from which those of a task are counted. -/
def anchor (s : State) (task : TaskDefinition) : ℤ :=
  (s.store.cursors task.id).getD task.createdAt

variable {task : TaskDefinition}

/-- A window that has not been passed lies past the cursor. -/
theorem anchor_lt
    (hwin : IsWindow intl task task.createdAt window) (hahead : ¬ Passed s task.id window) :
  anchor s task < window
  := by
  rw [anchor]
  cases hcur : s.store.cursors task.id with
  | none => exact Ascending.lt_of_reaches (fun _ _ => lt_nextWindow intl) hwin
  | some cursor =>
    by_contra hlt
    exact hahead ⟨cursor, hcur, not_lt.mp hlt⟩

/-- The cursor is not before a window that has been passed. -/
theorem Passed.le_anchor
    (h : Passed s task.id window) :
  window ≤ anchor s task
  := by
  obtain ⟨cursor, hcur, hle⟩ := h
  rw [anchor, hcur]
  exact hle

/-- The anchor never moves back. -/
theorem anchor_mono {actions : ℕ → Action} (h : Orderly intl retention set actions)
    (htask : task ∈ set.tasks) {k n : ℕ} (hkn : k ≤ n) :
  anchor (states intl retention set actions k) task ≤
    anchor (states intl retention set actions n) task
  := by
  have hmade : ∀ n, task.createdAt ≤ anchor (states intl retention set actions n) task := by
    intro n
    rw [anchor]
    cases hcur : (states intl retention set actions n).store.cursors task.id with
    | none => exact le_rfl
    | some cursor =>
      have hwin := (inv_states h n).sound.cursor task htask cursor hcur
      exact (Ascending.lt_of_reaches (fun _ _ => lt_nextWindow intl) hwin).le
  induction n, hkn using Nat.le_induction with
  | base => exact le_rfl
  | succ n _ ih =>
  apply ih.trans
  cases hcur : (states intl retention set actions n).store.cursors task.id with
  | none =>
    have hanchor : anchor (states intl retention set actions n) task = task.createdAt := by
      rw [anchor, hcur]
      rfl
    rw [hanchor]
    exact hmade (n + 1)
  | some cursor =>
  have hpass : Passed (states intl retention set actions n) task.id cursor :=
    ⟨cursor, hcur, le_rfl⟩
  have hanchor : anchor (states intl retention set actions n) task = cursor := by
    rw [anchor, hcur]
    rfl
  rw [hanchor]
  exact (hpass.step (actions n)).le_anchor

/-- A tick that can serve a task which has a window to be booked is going to book one. -/
theorem exists_pending (h : Sound intl set s) {p : Process} {now : ℤ}
    (htask : task ∈ set.tasks) (hon : task.enabled)
    (hready : ¬ Waits (s.input p now) task) (hwin : IsWindow intl task task.createdAt window)
    (hahead : ¬ Passed s task.id window) (hnow : window ≤ now) :
  ∃ next ∈ pending task.id (works (evaluateTick intl (s.input p now))), anchor s task < next
  := by
  have hnext : ∀ a b, nextWindow intl task a = some b → a < b := fun _ _ => lt_nextWindow intl
  -- the tick looks at some window
  have hreach : IsWindow intl task (anchor s task) window := by
    have hlt := anchor_lt hwin hahead
    rw [anchor] at hlt ⊢
    cases hcur : s.store.cursors task.id with
    | none => exact hwin
    | some cursor =>
      rw [hcur, Option.getD_some] at hlt
      exact Ascending.reaches_of_lt hnext (h.cursor task htask cursor hcur) hwin hlt
  obtain ⟨first, hfirst, hrest⟩ := TransGen.head'_iff.mp hreach
  have hle : first ≤ window := by
    rcases hrest.cases_head with rfl | ⟨c, hc, hrest⟩
    · exact le_rfl
    · exact (Ascending.lt_of_reaches hnext (.head' hc hrest)).le
  have hlook : first ∈ Scheduler.tickWindows intl (s.input p now) task := by
    have hstep : nextWindow intl task (anchor s task) = some first := hfirst
    change first ∈ Ascending.upTo (nextWindow intl task) now MAX_WINDOWS_PER_TICK (anchor s task)
    rw [MAX_WINDOWS_PER_TICK, Ascending.upTo, hstep]
    simp [not_lt.mpr (hle.trans hnow)]
  -- it is booked itself, or the latest of the windows missed is
  have hpend := (h.pending_load htask hon).1 hready
  obtain ⟨next, hnextMem⟩ :
      ∃ next, next ∈ pending task.id (works (evaluateTick intl (s.input p now))) := by
    rw [hpend]
    by_cases hboot : first < (s.input p now).bootAt
    · obtain ⟨late, hlate, -, -⟩ := le_late hlook hboot
      refine ⟨late, ?_⟩
      rw [mem_append, Option.mem_toList]
      exact .inl hlate
    · refine ⟨first, ?_⟩
      rw [mem_append, dueWindows, mem_filter, decide_eq_true_eq]
      exact .inr ⟨hlook, not_lt.mp hboot⟩
  obtain ⟨hnextWindow, hnextAhead⟩ := (h.contiguous_load htask).ahead next hnextMem
  exact ⟨next, hnextMem, anchor_lt hnextWindow hnextAhead⟩

/-- A tick that serves a task with a window to be booked moves its cursor on. -/
theorem anchor_lt_of_serves {actions : ℕ → Action} (h : Orderly intl retention set actions)
    (htask : task ∈ set.tasks) (hon : task.enabled) {now : ℤ}
    {n m : ℕ} (hserv : Serves intl retention set actions task now n m)
    (hwin : IsWindow intl task task.createdAt window)
    (hahead : ¬ Passed (states intl retention set actions n) task.id window) (hnow : window ≤ now) :
  anchor (states intl retention set actions n) task <
    anchor (states intl retention set actions m) task
  := by
  obtain ⟨maxConcurrent, hload⟩ := hserv.load
  obtain ⟨p, hp, hready⟩ := hserv.ready
  obtain ⟨next, hnext, hlt⟩ :=
    exists_pending (inv_states h n).sound htask hon hready hwin hahead hnow
  have hcoming : ∀ k, n + 1 ≤ k → k ≤ m →
      Coming (states intl retention set actions k) task.id next := by
    intro k hk
    induction k, hk using Nat.le_induction with
    | base =>
      intro _
      refine .inr ⟨{ p with
        maxConcurrent
        ticks := p.ticks ++ [works (evaluateTick intl
          ((states intl retention set actions n).input p now))] }, _, ?_,
        mem_append_right _ (mem_singleton_self _), hnext⟩
      simp only [states, hload, step, hp]
      rfl
    | succ k hk ih =>
      intro hkm
      exact (ih (by omega)).step (inv_states h k) (h k)
        (hserv.undisturbed k (by omega) (by omega))
  rcases hcoming m hserv.lt le_rfl with hpass | ⟨p', left, hp', hleft, hmem⟩
  · exact hlt.trans_le hpass.le_anchor
  · rw [hserv.ended p' hp' left hleft] at hmem
    cases hmem

/-- A run launches each window at most once, and leaves none of a task that is enabled without
a row, as long as ticks that get to the task keep coming. -/
structure Exact (intl : Intl) (retention : ℕ) (set : TaskSet) (actions : ℕ → Action) :
    Prop where
  atMostOnce : ∀ n, (states intl retention set actions n).launched.Nodup
  neverLost : ∀ task ∈ set.tasks, task.enabled → KeepsServing intl retention set actions task →
    ∀ window, IsWindow intl task task.createdAt window →
    ∃ n, Accounted (states intl retention set actions n) task.id window

/-- Every window of a task that ticks get to is accounted for in the end. -/
theorem accounted_of_serves {actions : ℕ → Action} (h : Orderly intl retention set actions)
    (htask : task ∈ set.tasks) (hon : task.enabled)
    (hserv : KeepsServing intl retention set actions task)
    (hwin : IsWindow intl task task.createdAt window) :
  ∃ n, Accounted (states intl retention set actions n) task.id window
  := by
  have hacct : ∀ n, Passed (states intl retention set actions n) task.id window →
      ∃ n, Accounted (states intl retention set actions n) task.id window := by
    intro n hpass
    use n
    exact (inv_states h n).sound.accounted task htask hon window hwin hpass
  -- every tick that serves the task brings the cursor nearer to the window
  have hnear : ∀ distance k,
      (window - anchor (states intl retention set actions k) task).toNat ≤ distance →
      ∃ n, Accounted (states intl retention set actions n) task.id window := by
    intro distance
    induction distance with
    | zero =>
      intro k hdistance
      by_contra hnone
      have hahead : anchor (states intl retention set actions k) task < window :=
        anchor_lt hwin (fun hpass => hnone (hacct k hpass))
      omega
    | succ distance ih =>
    intro k hdistance
    obtain ⟨now, n, m, hnow, hkn, hserve⟩ := hserv window k
    by_cases hpass : Passed (states intl retention set actions n) task.id window
    · exact hacct n hpass
    have hlt := anchor_lt_of_serves h htask hon hserve hwin hpass hnow
    have hle := anchor_mono h htask hkn
    apply ih m
    omega
  exact hnear _ 0 le_rfl

end Progress

/-- A store with a task of every minute. -/
def everyMinuteOnly : TaskSet where
  tasks := [everyMinute.toTaskDefinition]
  distinct := by decide

/-- Some actions, and nothing but the end of the process after them. -/
def actionsOf (actions : List Action) (n : ℕ) : Action :=
  actions.getD n .halt

end Daemon
