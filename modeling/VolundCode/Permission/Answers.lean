import VolundCode.Permission.Manager

/-!
# Answers to prompts

The answers that a permission manager remembers are to be asked for once: after the user has
answered a prompt for a key, or has allowed everything, no prompt is shown for a request that the
answer covers, until the session is cleared or its mode is set.

A request is compared with what is remembered when it is made, but not again when its prompt comes
up, so that a request that waits in the queue is asked although it has been answered meanwhile
(`not_honoured`). The answers are honoured in the runs where no request waits that an answer
covers when it is given (`honoured_of_apart`).
-/

namespace Permission

open Run Function

/-! ### What has been answered -/

/-- A manager, with the answers that the user has given for keys since the session was cleared or
its mode set, and whether the user has allowed everything since then. -/
structure Answered where
  manager : Manager
  answers : String → Option Cached
  all : Bool

def Answered.initial (o : Options) : Answered where
  manager := Manager.initial o
  answers _ := none
  all := false

/-- The answers with one more, if it is one that is remembered. -/
def noteAnswer (p : Platform) (answers : String → Option Cached) (request : PermissionRequest)
    (decision : PermissionDecision) : String → Option Cached :=
  match decision.kind.cached, keyOf p request with
  | some c, .ok key => Function.update answers key (some c)
  | _, _ => answers

/-- What has been answered after a step to the manager `m`. -/
def Answered.note (p : Platform) (s : Answered) (m : Manager) : Action → Answered
  | .answer decision =>
    match s.manager.running with
    | some (request, _) =>
      { manager := m
        answers := noteAnswer p s.answers request decision
        all := s.all || decide (decision.kind = .allowAllSession) }
    | none => { s with manager := m }
  | .setMode _ => { manager := m, answers := fun _ => none, all := false }
  | .clearSession => { manager := m, answers := fun _ => none, all := false }
  | _ => { s with manager := m }

/-- The step of a manager, with what has been answered. -/
def Answered.step (p : Platform) (o : Options) (s : Answered) (a : Action) : Option Answered :=
  (s.manager.step p o a).map fun m => s.note p m a

/-- The user has answered the request: for its key, or by allowing everything. -/
def Answered.Covers (p : Platform) (s : Answered) (request : PermissionRequest) : Prop :=
  s.all ∨ ∃ key, keyOf p request = .ok key ∧ (s.answers key).isSome

/-- No prompt is shown for a request that has been answered. Such a request does not wait for one
when it is made, and it is decided by the answer for its key unless a rule denies it. -/
def Honoured (p : Platform) (o : Options) (s : Answered) : Action → Prop
  | .start false =>
    ∀ request queue, s.manager.queue = request :: queue → ¬ s.Covers p request
  | .request request v =>
    (s.Covers p request → (s.manager.request p o request v).2 ≠ .enqueued) ∧
      ∀ key c, keyOf p request = .ok key → s.answers key = some c →
        v.projectDeny = false → v.globalDeny = false →
        (s.manager.request p o request v).2 = .decided (plain c.kind)
  | _ => True

/-- When the user gives an answer that is remembered, no request with the same key waits for its
prompt, and when the user allows everything, none does at all. -/
def Apart (p : Platform) (s : Answered) : Action → Prop
  | .answer decision =>
    ∀ running ∈ s.manager.running, (decision.kind.cached.isSome → ∀ waiting ∈ s.manager.queue,
        (keyOf p waiting).toOption ≠ (keyOf p running.1).toOption) ∧
      (decision.kind = .allowAllSession → s.manager.queue = [])
  | _ => True

/-- The manager remembers what has been answered, and no request waits that has been. -/
structure Kept (p : Platform) (s : Answered) : Prop where
  cache : ∀ key c, s.answers key = some c → s.manager.cache key = some c
  mode : s.all → s.manager.mode = .full
  queue : ∀ request ∈ s.manager.queue, ¬ s.Covers p request

theorem Kept.initial (p : Platform) (o : Options) : Kept p (Answered.initial o) where
  cache := by
    intro key c h
    cases h
  mode := by
    intro h
    cases h
  queue := by
    intro request h
    cases h

/-! ### Requests -/

section Requests

variable {p : Platform} {o : Options} {m : Manager} {r : PermissionRequest} {v : Moment}

/-- What a request does to the prompts: it changes neither the mode nor the one that is open, and
it waits only if nothing is remembered for its key and not everything is allowed. -/
structure Waits (p : Platform) (m : Manager) (r : PermissionRequest) (result : Manager × Outcome) :
    Prop where
  mode : result.1.mode = m.mode
  queue : result.1.queue = m.queue ∧ result.2 ≠ .enqueued ∨
    result.1.queue = m.queue ++ [r] ∧ result.2 = .enqueued ∧ m.mode ≠ .full ∧
      ∀ key, keyOf p r = .ok key → m.cache key = none

theorem Waits.of_same {outcome : Outcome} (h : outcome ≠ .enqueued) :
  Waits p m r (m, outcome)
  := ⟨rfl, Or.inl ⟨rfl, h⟩⟩

theorem waits_allowOrAsk {key : String} (hmode : m.mode ≠ .full)
    (hcache : ∀ key, keyOf p r = .ok key → m.cache key = none) :
  Waits p m r (m.allowOrAsk p o r v key)
  := by
  rw [Manager.allowOrAsk]
  split
  · rename_i automatic hautomatic
    constructor
    · dsimp only
      split_ifs <;> rfl
    left
    dsimp only
    constructor
    · split_ifs <;> rfl
    · rintro ⟨⟩
  split_ifs
  · apply Waits.of_same
    rintro ⟨⟩
  · apply Waits.of_same
    rintro ⟨⟩
  · apply Waits.of_same
    rintro ⟨⟩
  · exact ⟨rfl, Or.inr ⟨rfl, rfl, hmode, hcache⟩⟩

theorem waits_requestUncached {key : String}
    (hcache : ∀ key, keyOf p r = .ok key → m.cache key = none) :
  Waits p m r (m.requestUncached p o r v key)
  := by
  rw [Manager.requestUncached]
  by_cases hserver : (mcpServer r).any m.mcpServerAllows.contains
  · rw [if_pos hserver]
    apply Waits.of_same
    rintro ⟨⟩
  rw [if_neg hserver]
  by_cases hmode : m.mode = .full
  · rw [if_pos hmode]
    apply Waits.of_same
    rintro ⟨⟩
  rw [if_neg hmode]
  split
  · apply Waits.of_same
    rintro ⟨⟩
  · apply Waits.of_same
    rintro ⟨⟩
  split_ifs
  · apply Waits.of_same
    rintro ⟨⟩
  · apply Waits.of_same
    rintro ⟨⟩
  · apply waits_allowOrAsk hmode hcache

theorem waits_request :
  Waits p m r (m.request p o r v)
  := by
  rw [Manager.request]
  split_ifs
  · apply Waits.of_same
    rintro ⟨⟩
  · apply Waits.of_same
    rintro ⟨⟩
  split
  · apply Waits.of_same
    rintro ⟨⟩
  rename_i key hkey
  split
  · apply Waits.of_same
    rintro ⟨⟩
  rename_i hfree
  apply waits_requestUncached
  intro key' hkey'
  obtain rfl := Except.ok.inj (hkey.symm.trans hkey')
  apply hfree

/-- A request whose key is remembered is decided by what is remembered, unless a rule denies it. -/
theorem request_cached {key : String} {c : Cached} (hkey : keyOf p r = .ok key)
    (hcache : m.cache key = some c) (hproj : v.projectDeny = false)
    (hglobal : v.globalDeny = false) :
  (m.request p o r v).2 = .decided (plain c.kind)
  := by
  rw [Manager.request, hproj, hglobal, hkey]
  simp only [hcache]
  rfl

end Requests

/-! ### Answers -/

/-- An answer is noted as it is remembered: under the key of its request, or not at all. -/
theorem noteAnswer_cases (p : Platform) (answers : String → Option Cached)
    (r : PermissionRequest) (d : PermissionDecision) :
  (∃ c key, d.kind.cached = some c ∧ keyOf p r = .ok key ∧
      noteAnswer p answers r d = Function.update answers key (some c) ∧
      ∀ m : Manager, m.cacheAnswer p r d = m.remember key c) ∨
    noteAnswer p answers r d = answers ∧ ∀ m : Manager, m.cacheAnswer p r d = m
  := by
  simp only [noteAnswer, Manager.cacheAnswer]
  cases hc : d.kind.cached with
  | none => exact Or.inr ⟨rfl, fun _ => rfl⟩
  | some c =>
    cases hkey : keyOf p r with
    | error e => exact Or.inr ⟨rfl, fun _ => rfl⟩
    | ok key => exact Or.inl ⟨c, key, rfl, rfl, rfl, fun _ => rfl⟩

theorem frame_cacheAnswer (p : Platform) (m : Manager) (r : PermissionRequest)
    (d : PermissionDecision) :
  (m.cacheAnswer p r d).queue = m.queue ∧ (m.cacheAnswer p r d).mode = m.mode
  := by
  rcases noteAnswer_cases p m.cache r d with ⟨c, key, -, -, -, hm⟩ | ⟨-, hm⟩
  all_goals
    rw [hm]
    exact ⟨rfl, rfl⟩

/-- An answer leaves the queue, and sets the mode if it allows everything. -/
theorem frame_record (p : Platform) (m : Manager) (r : PermissionRequest) (d : PermissionDecision) :
  (m.record p r d).1.queue = m.queue ∧
    (m.record p r d).1.mode = if d.kind = .allowAllSession then .full else m.mode
  := by
  obtain ⟨hqueue, hmode⟩ := frame_cacheAnswer p m r d
  rw [Manager.record]
  cases hkind : d.kind with
  | allowMcpServer =>
    cases mcpServer r with
    | none | some server => exact ⟨hqueue, hmode⟩
  | allowAllSession => exact ⟨hqueue, rfl⟩
  | _ => exact ⟨hqueue, hmode⟩

/-- The cache holds the answers with one more if it held them before. -/
theorem cache_noteAnswer {p : Platform} {m : Manager} {answers : String → Option Cached}
    {r : PermissionRequest} {d : PermissionDecision}
    (h : ∀ key c, answers key = some c → m.cache key = some c) :
  ∀ key c, noteAnswer p answers r d key = some c → (m.cacheAnswer p r d).cache key = some c
  := by
  intro key c hnoted
  rcases noteAnswer_cases p answers r d with ⟨c', key', -, -, hnote, hm⟩ | ⟨hnote, hm⟩
  · rw [hnote] at hnoted
    rw [hm]
    change Function.update m.cache key' (some c') key = some c
    by_cases heq : key = key'
    · subst heq
      rw [update_self] at hnoted
      rw [update_self, hnoted]
    · rw [update_of_ne heq] at hnoted
      rw [update_of_ne heq, h key c hnoted]
  · rw [hnote] at hnoted
    rw [hm]
    apply h key c hnoted

/-- A request is answered by one more answer if it was before, or by that answer. -/
theorem noteAnswer_isSome {p : Platform} {answers : String → Option Cached}
    {r : PermissionRequest} {d : PermissionDecision} {key : String}
    (h : (noteAnswer p answers r d key).isSome) :
  (answers key).isSome ∨ d.kind.cached.isSome ∧ keyOf p r = .ok key
  := by
  rcases noteAnswer_cases p answers r d with ⟨c, key', hc, hkey, hnote, -⟩ | ⟨hnote, -⟩
  · rw [hnote] at h
    by_cases heq : key = key'
    · subst heq
      right
      rw [hc]
      exact ⟨rfl, hkey⟩
    · left
      rw [update_of_ne heq] at h
      apply h
  · left
    rw [hnote] at h
    apply h

/-! ### Steps -/

section Steps

variable {p : Platform} {o : Options} {s t : Answered} {a : Action}

/-- A step that changes neither what is remembered nor what has been answered keeps the record, if
only requests wait that waited. -/
theorem Kept.frame {m : Manager} (hs : Kept p s) (hcache : m.cache = s.manager.cache)
    (hmode : m.mode = s.manager.mode) (hqueue : ∀ r ∈ m.queue, r ∈ s.manager.queue) :
  Kept p { s with manager := m }
  := by
  constructor
  · intro key c h
    rw [hcache]
    apply hs.cache key c h
  · intro h
    rw [hmode]
    apply hs.mode h
  · intro r hr
    apply hs.queue r (hqueue r hr)

/-- A request keeps the record: it waits only if it has not been answered. -/
theorem Kept.request (hs : Kept p s) (r : PermissionRequest) (v : Moment) :
  Kept p { s with manager := (s.manager.request p o r v).1 }
  := by
  have hwaits : Waits p s.manager r (s.manager.request p o r v) := waits_request
  constructor
  · intro key c h
    have hcached := hs.cache key c h
    rcases (request_cache p o s.manager r v).2 with hcache | ⟨key', -, hfree, hcache⟩
    · rw [hcache]
      apply hcached
    rw [hcache, update_of_ne]
    · apply hcached
    · rintro rfl
      rw [hfree] at hcached
      cases hcached
  · intro h
    rw [hwaits.mode]
    apply hs.mode h
  intro r' hr'
  rcases hwaits.queue with ⟨hqueue, -⟩ | ⟨hqueue, -, hmode, hfree⟩
  · rw [hqueue] at hr'
    apply hs.queue r' hr'
  rw [hqueue, List.mem_append] at hr'
  rcases hr' with hr' | hr'
  · apply hs.queue r' hr'
  obtain rfl := List.mem_singleton.mp hr'
  rintro (hall | ⟨key, hkey, hsome⟩)
  · apply hmode (hs.mode hall)
  obtain ⟨c, hc⟩ := Option.isSome_iff_exists.mp hsome
  have hcached := hs.cache key c hc
  rw [hfree key hkey] at hcached
  cases hcached

/-- An answer keeps the record if no request waits that it covers. -/
theorem Kept.answer {r : PermissionRequest} {d : PermissionDecision} {stage : Stage}
    {running : Option (PermissionRequest × Stage)} (hs : Kept p s)
    (hruns : s.manager.running = some (r, stage)) (hok : Apart p s (.answer d)) :
  Kept p
    { manager := { (s.manager.record p r d).1 with running := running }
      answers := noteAnswer p s.answers r d
      all := s.all || decide (d.kind = .allowAllSession) }
  := by
  obtain ⟨hkeys, hnone⟩ := hok (r, stage) (by rw [hruns]; rfl)
  obtain ⟨hqueue, hmode⟩ := frame_record p s.manager r d
  constructor
  · intro key c h
    change (s.manager.record p r d).1.cache key = some c
    rw [(record_spec p s.manager r d).1]
    apply cache_noteAnswer hs.cache key c h
  · intro h
    change (s.manager.record p r d).1.mode = .full
    rw [hmode]
    split_ifs with hkind
    · rfl
    · rw [Bool.or_eq_true, decide_eq_true_eq] at h
      apply hs.mode (h.resolve_right hkind)
  intro waiting hwait
  have hmem : waiting ∈ s.manager.queue := by
    rw [← hqueue]
    apply hwait
  rintro (hall | ⟨key, hkey, hsome⟩)
  · rw [Bool.or_eq_true, decide_eq_true_eq] at hall
    rcases hall with hall | hkind
    · apply hs.queue waiting hmem
      left
      apply hall
    · rw [hnone hkind] at hmem
      cases hmem
  rcases noteAnswer_isSome hsome with hsome | ⟨hcached, hansw⟩
  · apply hs.queue waiting hmem
    right
    use key
  · apply hkeys hcached waiting hmem
    rw [hkey, hansw]

/-- A step whose answer covers no request that waits keeps the record. -/
theorem Kept.step (hs : Kept p s) (hok : Apart p s a) (ht : s.step p o a = some t) :
  Kept p t
  := by
  obtain ⟨m, hm, rfl⟩ := Option.map_eq_some_iff.mp ht
  cases a with
  | request r v =>
    cases hm
    apply hs.request
  | start aborted =>
    rw [Manager.step] at hm
    split at hm
    · rename_i r queue hruns hqueue
      have htail : ∀ r ∈ queue, r ∈ s.manager.queue := by
        intro r hr
        rw [hqueue]
        apply List.mem_cons_of_mem _ hr
      split_ifs at hm
      all_goals
        cases hm
        exact hs.frame rfl rfl htail
    · cases hm
  | answer d =>
    rw [Manager.step] at hm
    split at hm
    · rename_i r hruns
      cases hm
      rw [Answered.note, hruns]
      exact hs.answer hruns hok
    · cases hm
  | promptRejects | persisted =>
    rw [Manager.step] at hm
    split at hm
    · cases hm
      exact hs.frame rfl rfl fun _ hr => hr
    · cases hm
  | setPromptHandler | grantEphemeral | clearEphemeral =>
    cases hm
    exact hs.frame rfl rfl fun _ hr => hr
  | setMode | clearSession =>
  constructor
  · intro key c h
    cases h
  · intro h
    cases h
  · intro r hr
    rintro (h | ⟨key, -, h⟩)
    all_goals cases h

/-- Where the record is kept, every step honours the answers. -/
theorem Kept.honoured (hs : Kept p s) :
  Honoured p o s a
  := by
  cases a with
  | start aborted =>
    cases aborted with
    | true => exact True.intro
    | false =>
    intro r queue hqueue
    apply hs.queue
    rw [hqueue]
    apply List.mem_cons_self
  | request r v =>
    constructor
    · intro hcovers hwait
      have hwaits : Waits p s.manager r (s.manager.request p o r v) := waits_request
      rcases hwaits.queue with ⟨-, hdec⟩ | ⟨-, -, hmode, hfree⟩
      · apply hdec hwait
      rcases hcovers with hall | ⟨key, hkey, hsome⟩
      · apply hmode (hs.mode hall)
      obtain ⟨c, hc⟩ := Option.isSome_iff_exists.mp hsome
      have hcached := hs.cache key c hc
      rw [hfree key hkey] at hcached
      cases hcached
    · intro key c hkey hc hproj hglobal
      apply request_cached hkey (hs.cache key c hc) hproj hglobal
  | answer | promptRejects | persisted | setMode
  | setPromptHandler | grantEphemeral | clearEphemeral | clearSession => exact True.intro

end Steps

/-! ### Runs -/

/-- In every run in which no request waits that an answer covers when it is given, no prompt is
shown for what has been answered. -/
theorem honoured_of_apart
    (p : Platform) (o : Options) (as : List Action)
    (hok : Guarded (Answered.step p o) (Apart p) (Answered.initial o) as) :
  Guarded (Answered.step p o) (Honoured p o) (Answered.initial o) as
  := by
  apply Guarded.imp (I := Kept p) _ _ (Kept.initial p o) hok
  · intro s a t hs hok ht
    apply hs.step hok ht
  · intro s a hs _
    apply hs.honoured

/-- A request that has been answered for the session is made again. -/
def askedThenCovered : List Action :=
  [.setPromptHandler, .request sampleWrite sampleMoment, .start false,
    .answer (plain .allowSession), .persisted, .request sampleWrite sampleMoment]

theorem honoured_of_apart_askedThenCovered :
  Guarded (Answered.step samplePlatform sampleOptions) (Honoured samplePlatform sampleOptions)
    (Answered.initial sampleOptions) askedThenCovered
  := by
  have hok : Guarded (Answered.step samplePlatform sampleOptions) (Apart samplePlatform)
      (Answered.initial sampleOptions) askedThenCovered := by
    refine ⟨trivial, trivial, trivial, ?_, trivial, trivial, trivial⟩
    intro running _
    constructor
    · intro _ waiting hwait
      cases hwait
    · intro _
      rfl
  apply honoured_of_apart samplePlatform sampleOptions askedThenCovered hok

/-- Two requests with one key are made before the first of them is answered for the session. -/
def askedTwice : List Action :=
  [.setPromptHandler, .request sampleWrite sampleMoment, .request sampleWrite sampleMoment,
    .start false, .answer (plain .allowSession), .persisted, .start false]

/-- A prompt is shown for a request that has been answered. -/
theorem not_honoured :
  ¬ ∀ p o as, Guarded (Answered.step p o) (Honoured p o) (Answered.initial o) as
  := by
  intro h
  have hhonoured := h samplePlatform sampleOptions askedTwice
  have hshown := hhonoured.2.2.2.2.2.2.1 sampleWrite [] rfl
  apply hshown
  right
  exact ⟨_, rfl, rfl⟩

end Permission
