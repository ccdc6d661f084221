import VolundCode.Tools.MutateFiles

/-!
# Sessions that change the same files

Calls of Read, Write, Edit and MultiEdit by any number of sessions, cut at every wait. A call that
succeeds records the digest of what it has read or written for its session; a Write with neither
`force` nor `expect` goes by this record when it holds the lock of the file.

The log has what was recorded and every change of a file, the newest first. A Write that goes by
the record finds no file or one with the digest of what its session recorded last, and the file
does not change between this look at it and its replacement (`kept_of_run`). It does not notice
that another session has written since then, if that left the bytes as they were (`not_kept`).
-/

namespace Tools.Sessions

open Run List

/-! ### What is recorded -/

/-- A record of a session, a file replaced by a Write that goes by the record, with what was in it
before, and any other change of a file. -/
inductive Event (B : Type) where
  | recorded (session path : String) (content : B)
  | wrote (session path : String) (before : Option B)
  | changed (session path : String)
deriving DecidableEq

section Log

variable {B : Type}

/-- What the session recorded last for the path. -/
def latest (session path : String) : List (Event B) → Option B
  | [] => none
  | .recorded session' path' content :: past =>
    if session' = session ∧ path' = path then some content else latest session path past
  | _ :: past => latest session path past

/-- The session that changed the path, if the event is such a change. -/
def Event.author (path : String) : Event B → Option String
  | .recorded _ _ _ => none
  | .wrote session path' _ | .changed session path' => if path' = path then some session else none

/-- Who changed the path, the latest change first. -/
def changes (path : String) (log : List (Event B)) : List String :=
  log.filterMap (Event.author path)

/-- Another session has changed the path since the session's last record for it. -/
def foreignSince (session path : String) : List (Event B) → Bool
  | [] => false
  | .recorded session' path' _ :: past =>
    !decide (session' = session ∧ path' = path) && foreignSince session path past
  | event :: past =>
    (event.author path).any (· ≠ session) || foreignSince session path past

end Log

/-- `MAX_TRACKED_SESSIONS`. -/
def maxTrackedSessions : ℕ := 1024

/-- `sessionReadHashes`: the sessions in the order in which they came, each with its digests. -/
abbrev ReadHashes (K : Type) :=
  List (String × (String → Option K))

section Table

variable {K : Type}

/-- `recordSessionRead`: with one session too many the oldest is forgotten. -/
def recordSessionRead (table : ReadHashes K) (session path : String) (hash : K) : ReadHashes K :=
  if table.any fun tracked => tracked.1 = session then
    table.map fun tracked =>
      if tracked.1 = session then (session, Function.update tracked.2 path (some hash)) else tracked
  else
    let table := table ++ [(session, Function.update (fun _ => none) path (some hash))]
    if maxTrackedSessions < table.length then table.tail else table

/-- `sessionReadHash`. -/
def sessionReadHash (table : ReadHashes K) (session path : String) : Option K :=
  (table.find? fun tracked => tracked.1 = session).bind fun tracked => tracked.2 path

end Table

/-! ### Calls -/

/-- What a Write is asked to go by. -/
structure Gate (K : Type) where
  path : String
  force : Bool
  expect : Option K
deriving DecidableEq

/-- A call of `mutateFiles`: the updates, their paths in the order of the locks, and the gate if it
is that of a Write. The log at which the gate let it pass is kept beside them. -/
structure Mutation (B K : Type) where
  updates : List (Update B K)
  paths : List String
  gate : Option (Gate K)
  admission : List (Event B)

/-- What a call is asked to do. The edits of an Edit or a MultiEdit are given by path, each with
the content it makes of another one, if it can be applied. -/
inductive Job (B K : Type) where
  | read (path : String)
  | write (path : String) (content : B) (force : Bool) (expect : Option K)
  | edit (edits : List (String × (B → Option B)))

/-- What a call waits for. A Read waits for the content and goes on with it; an Edit reads its
files, each one twice. `mutateFiles` waits for the locks, the guard, the backups, the looks at
what is expected, the files, the looks at what they hold and the commit; if one of them throws it
restores the files, and in any case it gives the locks back. -/
inductive Phase (B K : Type) where
  | reading (path : String)
  | returning (path : String) (content : B)
  | collecting (todo : List (String × (B → Option B))) (updates : List (Update B K))
  | confirming (content : B) (path : String) (edit : B → Option B)
      (todo : List (String × (B → Option B))) (updates : List (Update B K))
  | locking (held todo : List String) (m : Mutation B K)
  | gating (m : Mutation B K)
  | judging (seen : Option B) (gate : Gate K) (m : Mutation B K)
  | preparing (m : Mutation B K)
  | checking (todo : List (Update B K)) (captures : List (String × Option B)) (m : Mutation B K)
  | writing (todo : List (Update B K)) (captures : List (String × Option B)) (m : Mutation B K)
  | verifying (todo : List (Update B K)) (captures : List (String × Option B)) (m : Mutation B K)
  | committing (captures : List (String × Option B)) (m : Mutation B K)
  | restoring (captures : List (String × Option B)) (m : Mutation B K)
  | releasing (todo : List String) (done : Bool) (m : Mutation B K)
  | recording (m : Mutation B K)
  | ended

/-- A call of a session. -/
structure Call (B K : Type) where
  session : String
  phase : Phase B K

/-- The files, the calls that hold their locks, the records of all sessions, the calls, and the
log. -/
structure State (B K : Type) where
  files : String → Option B
  locks : String → Option ℕ
  table : ReadHashes K
  calls : ℕ → Option (Call B K)
  log : List (Event B)

namespace State

variable {B K : Type}

/-- Files that no session has seen. -/
def start (files : String → Option B) : State B K where
  files := files
  locks := fun _ => none
  table := []
  calls := fun _ => none
  log := []

/-- The call is at another wait. -/
def withPhase (s : State B K) (id : ℕ) (c : Call B K) (phase : Phase B K) : State B K :=
  { s with calls := Function.update s.calls id (some { c with phase := phase }) }

/-- The lock of the file is given to a call or taken back. -/
def withLock (s : State B K) (path : String) (holder : Option ℕ) : State B K :=
  { s with locks := Function.update s.locks path holder }

/-- The file is replaced or removed. -/
def put (s : State B K) (path : String) (content : Option B) (event : Event B) : State B K :=
  { s with
    files := Function.update s.files path content
    log := event :: s.log }

/-- The content is recorded for the session. -/
def record (digest : B → K) (session : String) (s : State B K) (entry : String × B) :
    State B K :=
  { s with
    table := recordSessionRead s.table session entry.1 (digest entry.2)
    log := .recorded session entry.1 entry.2 :: s.log }

end State

variable {B K : Type} [DecidableEq K]

/-- What is logged when an update of the mutation is written. -/
def Mutation.event (m : Mutation B K) (session path : String) (before : Option B) : Event B :=
  match m.gate with
  | some ⟨_, false, none⟩ => .wrote session path before
  | _ => .changed session path

/-- `mutateFiles`, up to its first wait. -/
def Mutation.begin (m : Mutation B K) : Phase B K :=
  .locking [] m.paths m

/-- The mutation of a Write: one update with a guard. -/
def Mutation.ofWrite (path : String) (content : B) (force : Bool) (expect : Option K) :
    Mutation B K where
  updates := [{ path := path, content := content, expect := none }]
  paths := [path]
  gate := some { path := path, force := force, expect := expect }
  admission := []

/-- The mutation of an Edit or a MultiEdit. -/
def Mutation.ofEdits (updates : List (Update B K)) : Mutation B K where
  updates := updates
  paths := pathsOf updates
  gate := none
  admission := []

/-- The first wait of a call. -/
def Job.phase : Job B K → Phase B K
  | .read path => .reading path
  | .write path content force expect => (Mutation.ofWrite path content force expect).begin
  | .edit edits => .collecting edits []

/-- What a call does when what it waits for is there, up to its next wait. -/
def State.proceed (digest : B → K) (s : State B K) (id : ℕ) (c : Call B K) :
    Option (State B K × Phase B K) :=
  match c.phase with
  | .reading path =>
    match s.files path with
    | none => some (s, .ended)
    | some content => some (s, .returning path content)
  | .returning path content => some (s.record digest c.session (path, content), .ended)
  | .collecting [] updates => some (s, (Mutation.ofEdits updates).begin)
  | .collecting ((path, edit) :: todo) updates =>
    match s.files path with
    | none => some (s, .ended)
    | some content => some (s, .confirming content path edit todo updates)
  | .confirming content path edit todo updates =>
    if (s.files path).map digest = some (digest content) then
      match edit content with
      | none => some (s, .ended)
      | some next =>
        some (s, .collecting todo
          (updates ++ [{ path := path, content := next, expect := some (digest content) }]))
    else some (s, .ended)
  | .locking _ [] m => some (s, .gating m)
  | .locking held (path :: todo) m =>
    if s.locks path = none then
      some (s.withLock path (some id), .locking (held ++ [path]) todo m)
    else none
  | .gating m =>
    match m.gate with
    | none => some (s, .preparing m)
    | some gate =>
      if gate.force then some (s, .preparing m)
      else some (s, .judging (s.files gate.path) gate m)
  | .judging none _ m => some (s, .preparing { m with admission := s.log })
  | .judging (some content) gate m =>
    match gate.expect <|> sessionReadHash s.table c.session gate.path with
    | none => some (s, .releasing m.paths.reverse false m)
    | some expected =>
      if digest content = expected then some (s, .preparing { m with admission := s.log })
      else some (s, .releasing m.paths.reverse false m)
  | .preparing m =>
    some (s, .checking m.updates (m.paths.map fun path => (path, s.files path)) m)
  | .checking [] captures m => some (s, .writing m.updates captures m)
  | .checking (u :: todo) captures m =>
    match u.expect with
    | none => some (s, .checking todo captures m)
    | some hash =>
      if (s.files u.path).map digest = some hash then some (s, .checking todo captures m)
      else some (s, .restoring captures.reverse m)
  | .writing [] captures m => some (s, .verifying m.updates captures m)
  | .writing (u :: todo) captures m =>
    some (s.put u.path (some u.content) (m.event c.session u.path (s.files u.path)),
      .writing todo captures m)
  | .verifying [] captures m => some (s, .committing captures m)
  | .verifying (u :: todo) captures m =>
    if (s.files u.path).map digest = some (digest u.content) then
      some (s, .verifying todo captures m)
    else some (s, .restoring captures.reverse m)
  | .committing _ m => some (s, .releasing m.paths.reverse true m)
  | .restoring [] m => some (s, .releasing m.paths.reverse false m)
  | .restoring ((path, content) :: captures) m =>
    some (s.put path content (.changed c.session path), .restoring captures m)
  | .releasing [] done m => some (s, if done then .recording m else .ended)
  | .releasing (path :: todo) done m => some (s.withLock path none, .releasing todo done m)
  | .recording m =>
    some ((m.updates.map fun u => (u.path, u.content)).foldl (State.record digest c.session) s,
      .ended)
  | .ended => none

/-- Where a call goes on if what it waits for throws. -/
def Phase.failing : Phase B K → Option (Phase B K)
  | .reading _ | .collecting _ _ | .confirming _ _ _ _ _ | .releasing _ _ _ => some .ended
  | .locking held _ m => some (.releasing held.reverse false m)
  | .gating m | .preparing m | .restoring _ m => some (.releasing m.paths.reverse false m)
  | .checking _ captures m | .writing _ captures m | .verifying _ captures m
  | .committing captures m => some (.restoring captures.reverse m)
  | .returning _ _ | .judging _ _ _ | .recording _ | .ended => none

/-- A call begins, goes on, or fails; a file that is being restored holds something else until it
is written. -/
inductive Action (B K : Type) where
  | start (id : ℕ) (session : String) (job : Job B K)
  | go (id : ℕ)
  | fail (id : ℕ)
  | tear (id : ℕ) (content : B)

/-- One step of one call. -/
def step (digest : B → K) (s : State B K) : Action B K → Option (State B K)
  | .start id session job =>
    match s.calls id with
    | some _ => none
    | none => some (s.withPhase id { session := session, phase := job.phase } job.phase)
  | .go id =>
    (s.calls id).bind fun c =>
      (s.proceed digest id c).map fun next => next.1.withPhase id c next.2
  | .fail id =>
    (s.calls id).bind fun c => c.phase.failing.map fun phase => s.withPhase id c phase
  | .tear id content =>
    (s.calls id).bind fun c =>
      match c.phase with
      | .restoring ((path, some _) :: _) _ =>
        some (s.put path (some content) (.changed c.session path))
      | _ => none

/-! ### What a call has made sure of -/

/-- No file, or a content with the digest of what the session recorded last. -/
def Known (digest : B → K) (earlier : List (Event B)) (session path : String)
    (before : Option B) : Prop :=
  before = none ∨
    ∃ content known, before = some content ∧ latest session path earlier = some known ∧
      digest content = digest known

/-- At an earlier moment the content was known, and the file has not changed since then. -/
def KeptAt (digest : B → K) (past : List (Event B)) (session path : String)
    (before : Option B) : Prop :=
  ∃ earlier, earlier <:+ past ∧ changes path past = changes path earlier ∧
    Known digest earlier session path before

/-- What is replaced by a Write that goes by the record was known. -/
def Kept (digest : B → K) (log : List (Event B)) : Prop :=
  ∀ past session path before, (.wrote session path before :: past) <:+ log →
    KeptAt digest past session path before

omit [DecidableEq K] in
/-- A longer log keeps what the shorter one keeps, and its newest event has to. -/
theorem Kept.cons
    {digest : B → K} {event : Event B} {log : List (Event B)} (h : Kept digest log)
    (hevent : ∀ session path before, event = .wrote session path before →
      KeptAt digest log session path before) :
  Kept digest (event :: log)
  := by
  intro past session path before hsuffix
  rcases suffix_cons_iff.mp hsuffix with heq | hsuffix
  · obtain ⟨rfl, rfl⟩ := List.cons.inj heq
    apply hevent session path before rfl
  · apply h past session path before hsuffix

/-- Every digest of the table is that of the last record of its session. -/
def Tracked (digest : B → K) (s : State B K) : Prop :=
  ∀ tracked ∈ s.table, ∀ path hash, tracked.2 path = some hash →
    ∃ known, latest tracked.1 path s.log = some known ∧ digest known = hash

/-- The call holds the lock of the file. -/
def Holds (s : State B K) (id : ℕ) (path : String) : Prop :=
  s.locks path = some id

/-- The paths of a mutation are different ones, and those of its updates; with a gate there is one
update. -/
structure Mutation.Formed (m : Mutation B K) : Prop where
  nodup : m.paths.Nodup
  paths : ∀ u ∈ m.updates, u.path ∈ m.paths
  gate : ∀ gate, m.gate = some gate → ∃ content, m.updates = [⟨gate.path, content, none⟩]

/-- The mutation is that of a Write that goes by the record. -/
def Mutation.Plain (m : Mutation B K) : Prop :=
  ∃ path, m.gate = some ⟨path, false, none⟩

/-- The file is as it was when the gate was passed, and was known then. -/
structure Admitted (digest : B → K) (s : State B K) (session : String) (m : Mutation B K)
    (path : String) : Prop where
  suffix : m.admission <:+ s.log
  unchanged : changes path s.log = changes path m.admission
  known : Known digest m.admission session path (s.files path)

/-- A mutation that is under way holds all its locks. -/
structure Owned (s : State B K) (id : ℕ) (m : Mutation B K) : Prop where
  formed : m.Formed
  holds : ∀ path ∈ m.paths, Holds s id path

/-- The captures are those of the files of the mutation. -/
structure Prepared (s : State B K) (id : ℕ) (m : Mutation B K)
    (captures : List (String × Option B)) : Prop extends Owned s id m where
  captured : ∀ capture ∈ captures, capture.1 ∈ m.paths

/-- If the mutation is that of a Write that goes by the record, the files of the updates are as
they were at its gate. -/
def Cleared (digest : B → K) (s : State B K) (session : String) (m : Mutation B K)
    (todo : List (Update B K)) : Prop :=
  m.Plain → ∀ u ∈ todo, Admitted digest s session m u.path

/-- What a call has made sure of by the time of a wait. -/
def Phase.Sound (digest : B → K) (s : State B K) (id : ℕ) (session : String) : Phase B K → Prop
  | .locking held todo m => m.Formed ∧ held ++ todo = m.paths ∧ ∀ path ∈ held, Holds s id path
  | .gating m => Owned s id m
  | .judging seen gate m => Owned s id m ∧ m.gate = some gate ∧ s.files gate.path = seen
  | .preparing m => Owned s id m ∧ Cleared digest s session m m.updates
  | .checking _ captures m => Prepared s id m captures ∧ Cleared digest s session m m.updates
  | .writing todo captures m =>
    Prepared s id m captures ∧ todo <:+ m.updates ∧ Cleared digest s session m todo
  | .verifying _ captures m | .committing captures m | .restoring captures m =>
    Prepared s id m captures
  | .releasing todo _ _ => todo.Nodup ∧ ∀ path ∈ todo, Holds s id path
  | _ => True

/-- What is there for all calls. -/
structure Invariant (digest : B → K) (s : State B K) : Prop where
  calls : ∀ id c, s.calls id = some c → c.phase.Sound digest s id c.session
  tracked : Tracked digest s
  kept : Kept digest s.log

/-! ### What another call leaves alone -/

/-- The files whose locks the call holds are left alone. -/
structure Undisturbed (s t : State B K) (id : ℕ) : Prop where
  locks : ∀ path, Holds s id path → Holds t id path
  files : ∀ path, Holds s id path → t.files path = s.files path
  changes : ∀ path, Holds s id path → changes path t.log = changes path s.log
  log : s.log <:+ t.log

namespace Undisturbed

omit [DecidableEq K]

variable {digest : B → K} {s t : State B K} {id : ℕ} {session : String} {m : Mutation B K}

/-- Nothing has happened. -/
theorem refl (s : State B K) (id : ℕ) :
  Undisturbed s s id
  := ⟨fun _ h => h, fun _ _ => rfl, fun _ _ => rfl, suffix_rfl⟩

theorem owned (h : Undisturbed s t id) (hm : Owned s id m) :
  Owned t id m
  := ⟨hm.formed, fun path hpath => h.locks path (hm.holds path hpath)⟩

theorem prepared (h : Undisturbed s t id) {captures : List (String × Option B)}
    (hm : Prepared s id m captures) :
  Prepared t id m captures
  := ⟨h.owned hm.toOwned, hm.captured⟩

/-- A file that is locked is still as it was at the gate. -/
theorem admitted
    (h : Undisturbed s t id) {path : String} (hpath : Holds s id path)
    (hm : Admitted digest s session m path) :
  Admitted digest t session m path
  := by
  constructor
  · apply hm.suffix.trans h.log
  · rw [h.changes path hpath, hm.unchanged]
  · rw [h.files path hpath]
    apply hm.known

theorem cleared
    (h : Undisturbed s t id) (hm : Owned s id m) {todo : List (Update B K)}
    (htodo : todo <:+ m.updates) (hcleared : Cleared digest s session m todo) :
  Cleared digest t session m todo
  := by
  intro hplain u hu
  apply h.admitted (hm.holds _ (hm.formed.paths u (htodo.subset hu))) (hcleared hplain u hu)

/-- What a call has made sure of stays so. -/
theorem sound
    (h : Undisturbed s t id) {phase : Phase B K} (hphase : phase.Sound digest s id session) :
  phase.Sound digest t id session
  := by
  cases phase with
  | locking held todo m =>
    obtain ⟨hm, hpaths, hheld⟩ := hphase
    exact ⟨hm, hpaths, fun path hpath => h.locks path (hheld path hpath)⟩
  | gating m => exact h.owned hphase
  | judging seen gate m =>
    obtain ⟨hm, hgate, hseen⟩ := hphase
    obtain ⟨content, hupd⟩ := hm.formed.gate gate hgate
    have hpath : gate.path ∈ m.paths := by
      apply hm.formed.paths ⟨gate.path, content, none⟩
      simp [hupd]
    use h.owned hm, hgate
    rw [h.files gate.path (hm.holds _ hpath), hseen]
  | preparing m => exact ⟨h.owned hphase.1, h.cleared hphase.1 suffix_rfl hphase.2⟩
  | checking todo captures m =>
    exact ⟨h.prepared hphase.1, h.cleared hphase.1.toOwned suffix_rfl hphase.2⟩
  | writing todo captures m =>
    obtain ⟨hm, htodo, hcleared⟩ := hphase
    exact ⟨h.prepared hm, htodo, h.cleared hm.toOwned htodo hcleared⟩
  | verifying todo captures m | committing captures m | restoring captures m =>
    exact h.prepared hphase
  | releasing todo done m =>
    exact ⟨hphase.1, fun path hpath => h.locks path (hphase.2 path hpath)⟩
  | _ => exact True.intro

/-- Another call takes a lock that nobody holds, or gives one back that it holds. -/
theorem withLock
    {path : String} {holder : Option ℕ} (h : ¬ Holds s id path) :
  Undisturbed s (s.withLock path holder) id
  := by
  constructor
  · intro path' hpath'
    have hne : path' ≠ path := by
      rintro rfl
      exact h hpath'
    simp only [Holds, State.withLock]
    rw [Function.update_of_ne hne]
    apply hpath'
  · intro _ _
    rfl
  · intro _ _
    rfl
  · exact suffix_rfl

/-- Another call puts a file in place whose lock it holds. -/
theorem put
    {path : String} {content : Option B} {event : Event B} (h : ¬ Holds s id path)
    (hevent : ∀ path', path' ≠ path → event.author path' = none) :
  Undisturbed s (s.put path content event) id
  := by
  have hne : ∀ path', Holds s id path' → path' ≠ path := by
    rintro path' hpath' rfl
    exact h hpath'
  constructor
  · intro path' hpath'
    apply hpath'
  · intro path' hpath'
    simp only [State.put]
    rw [Function.update_of_ne (hne path' hpath')]
  · intro path' hpath'
    simp only [State.put, Tools.Sessions.changes]
    rw [filterMap_cons_none (hevent path' (hne path' hpath'))]
  · apply suffix_cons

/-- A record is made. -/
theorem record (session : String) (entry : String × B) :
  Undisturbed s (s.record digest session entry) id
  := by
  constructor
  · intro _ h
    apply h
  · intro _ _
    rfl
  · intro _ _
    rfl
  · apply suffix_cons

/-- A call is at another wait. -/
theorem withPhase (s : State B K) (id other : ℕ) (c : Call B K) (phase : Phase B K) :
  Undisturbed s (s.withPhase other c phase) id
  := ⟨fun _ h => h, fun _ _ => rfl, fun _ _ => rfl, suffix_rfl⟩

theorem trans {u : State B K} (h : Undisturbed s t id) (h' : Undisturbed t u id) :
  Undisturbed s u id
  := by
  constructor
  · intro path hpath
    apply h'.locks path (h.locks path hpath)
  · intro path hpath
    rw [h'.files path (h.locks path hpath), h.files path hpath]
  · intro path hpath
    rw [h'.changes path (h.locks path hpath), h.changes path hpath]
  · apply h.log.trans h'.log

end Undisturbed

/-! ### Records and changes -/

section Records

omit [DecidableEq K]

variable {digest : B → K} {s : State B K}

variable {path session : String}

/-- An event that changes a path is a replacement of it and of no other path, and no record. -/
theorem Event.author_eq_some
    {event : Event B} (h : event.author path = some session) :
  (∃ before, event = .wrote session path before) ∨ event = .changed session path
  := by
  cases event with
  | recorded _ _ _ => cases h
  | wrote session' path' before =>
    simp only [Event.author] at h
    split_ifs at h with hpath
    cases h
    left
    use before
    rw [hpath]
  | changed session' path' =>
  simp only [Event.author] at h
  split_ifs at h with hpath
  cases h
  right
  rw [hpath]

/-- After a record the table has its digest, and the others it had. -/
theorem mem_recordSessionRead
    {table : ReadHashes K} {hash : K} {tracked : String × (String → Option K)}
    (h : tracked ∈ recordSessionRead table session path hash) :
  tracked ∈ table ∧ tracked.1 ≠ session ∨
    ∃ old, tracked = (session, Function.update old path (some hash)) ∧
      (old = (fun _ => none) ∨ (session, old) ∈ table)
  := by
  simp only [recordSessionRead] at h
  split_ifs at h with hany hsize
  · obtain ⟨old, hold, heq⟩ := mem_map.mp h
    split_ifs at heq with hsess
    · right
      use old.2, heq.symm
      right
      rw [← hsess]
      exact hold
    · obtain rfl := heq
      exact Or.inl ⟨hold, hsess⟩
  all_goals
    have hmem : tracked ∈ table ++ [(session, Function.update (fun _ => none) path (some hash))] := by
      first
      | exact h
      | exact mem_of_mem_tail h
    rcases mem_append.mp hmem with hold | hnew
    · left
      use hold
      intro hsess
      apply hany
      rw [any_eq_true]
      use tracked, hold
      simpa using hsess
    · right
      use fun _ => none, mem_singleton.mp hnew
      exact Or.inl rfl

/-- A record keeps every digest that of a last record. -/
theorem Tracked.record
    (h : Tracked digest s) (session : String) (entry : String × B) :
  Tracked digest (s.record digest session entry)
  := by
  intro tracked htracked path hash hhash
  simp only [State.record, latest]
  rcases mem_recordSessionRead htracked with ⟨hold, hne⟩ | ⟨old, rfl, hold⟩
  · rw [if_neg (fun hsame => hne hsame.1.symm)]
    apply h tracked hold path hash hhash
  by_cases hpath : entry.1 = path
  · obtain rfl := hpath
    simp only [Function.update_self, Option.some.injEq] at hhash
    rw [if_pos ⟨rfl, rfl⟩]
    use entry.2, rfl, hhash
  simp only [Function.update_of_ne (Ne.symm hpath)] at hhash
  rw [if_neg (fun hsame => hpath hsame.2)]
  rcases hold with rfl | hold
  · cases hhash
  · apply h _ hold path hash hhash

/-- A change of a file is no record. -/
theorem Tracked.put
    (h : Tracked digest s) {event : Event B}
    (hevent : event.author path = some session) (content : Option B) :
  Tracked digest (s.put path content event)
  := by
  intro tracked htracked path' hash hhash
  obtain ⟨known, hknown, hdigest⟩ := h tracked htracked path' hash hhash
  use known
  rcases Event.author_eq_some hevent with ⟨before, rfl⟩ | rfl <;> exact ⟨hknown, hdigest⟩

/-- The digest that is found for a session and a path is that of the last record for them. -/
theorem Tracked.latest
    (h : Tracked digest s) {hash : K} (hhash : sessionReadHash s.table session path = some hash) :
  ∃ known, Sessions.latest session path s.log = some known ∧ digest known = hash
  := by
  obtain ⟨tracked, hfind, hpath⟩ := Option.bind_eq_some_iff.mp hhash
  have hsess : tracked.1 = session := by
    simpa using List.find?_some hfind
  rw [← hsess]
  apply h tracked (mem_of_find?_eq_some hfind) path hash hpath

end Records

/-! ### One step -/

/-- What a step of one call comes to: the call is at a wait and has made sure of what it has to by
then, the other calls keep what they have made sure of, and so do the table and the log. -/
structure Progress (digest : B → K) (s t : State B K) (id : ℕ) (session : String)
    (phase : Phase B K) : Prop where
  calls : t.calls = s.calls
  others : ∀ other, other ≠ id → Undisturbed s t other
  sound : phase.Sound digest t id session
  tracked : Tracked digest t
  kept : Kept digest t.log

namespace Progress

variable {digest : B → K} {s t : State B K} {id : ℕ} {session : String} {phase : Phase B K}

omit [DecidableEq K]

/-- The call has only looked. -/
theorem wait (hs : Invariant digest s) (h : phase.Sound digest s id session) :
  Progress digest s s id session phase
  := ⟨rfl, fun other _ => Undisturbed.refl s other, h, hs.tracked, hs.kept⟩

/-- The call has taken a lock or given one back. -/
theorem withLock
    (hs : Invariant digest s) {path : String} {holder : Option ℕ}
    (hpath : ∀ other, other ≠ id → ¬ Holds s other path)
    (h : phase.Sound digest (s.withLock path holder) id session) :
  Progress digest s (s.withLock path holder) id session phase
  := ⟨rfl, fun other hother => Undisturbed.withLock (hpath other hother), h, hs.tracked, hs.kept⟩

/-- The call has put a file in place. -/
theorem put
    (hs : Invariant digest s) {path author : String} {content : Option B} {event : Event B}
    (hpath : Holds s id path) (hevent : event.author path = some author)
    (hkept : ∀ session path before, event = .wrote session path before →
      KeptAt digest s.log session path before)
    (h : phase.Sound digest (s.put path content event) id session) :
  Progress digest s (s.put path content event) id session phase
  := by
  constructor
  · rfl
  · intro other hother
    apply Undisturbed.put
    · intro hother'
      apply hother
      rw [Holds] at hpath hother'
      rw [hpath] at hother'
      apply (Option.some.inj hother').symm
    · intro path' hne
      rcases Event.author_eq_some hevent with ⟨before, rfl⟩ | rfl
      all_goals apply if_neg (Ne.symm hne)
  · exact h
  · apply hs.tracked.put hevent
  · apply hs.kept.cons hkept

/-- The call has made records. -/
theorem records
    (hs : Invariant digest s) (entries : List (String × B)) :
  Progress digest s (entries.foldl (State.record digest session) s) id session .ended
  := by
  suffices hall : ∀ t, Progress digest s t id session .ended →
      Progress digest s (entries.foldl (State.record digest session) t) id session .ended by
    apply hall
    apply wait hs
    exact True.intro
  induction entries with
  | nil =>
    intro t ht
    apply ht
  | cons entry entries ih =>
  intro t ht
  apply ih
  constructor
  · apply ht.calls
  · intro other hother
    apply (ht.others other hother).trans (Undisturbed.record session entry)
  · exact True.intro
  · apply ht.tracked.record
  · apply ht.kept.cons
    nofun

end Progress

section Steps

variable {digest : B → K} {s : State B K} {id : ℕ} {session : String} {m : Mutation B K}

omit [DecidableEq K] in
/-- What is logged for an update is a change of its path. -/
theorem Mutation.author_event (m : Mutation B K) (session path : String) (before : Option B) :
  (m.event session path before).author path = some session
  := by
  simp only [Mutation.event]
  split <;> exact if_pos rfl

variable {path : String}

omit [DecidableEq K] in
/-- Only a Write that goes by the record is logged as one. -/
theorem Mutation.plain_of_event
    {session' path' : String} {before before' : Option B}
    (h : m.event session path before = .wrote session' path' before') :
  m.Plain ∧ session' = session ∧ path' = path ∧ before' = before
  := by
  simp only [Mutation.event] at h
  split at h
  · obtain ⟨rfl, rfl, rfl⟩ := Event.wrote.inj h
    refine ⟨⟨_, ‹_›⟩, rfl, rfl, rfl⟩
  · cases h

omit [DecidableEq K] in
/-- The mutations of Writes and of Edits are formed. -/
theorem Mutation.formed_ofWrite (path : String) (content : B) (force : Bool) (expect : Option K) :
  (Mutation.ofWrite path content force expect).Formed
  := by
  constructor
  · exact nodup_singleton path
  · intro u hu
    obtain rfl := mem_singleton.mp hu
    exact mem_singleton_self path
  intro gate hgate
  cases hgate
  use content
  rfl

omit [DecidableEq K] in
/-- The paths of a mutation are different ones. -/
theorem nodup_pathsOf (updates : List (Update B K)) :
  (pathsOf updates).Nodup
  := by
  rw [pathsOf, Ecma.toSorted, (mergeSort_perm _ _).nodup_iff]
  exact Storage.BackupStore.nodup_eraseDups _

theorem Mutation.formed_ofEdits (updates : List (Update B K)) :
  (Mutation.ofEdits updates).Formed
  := by
  constructor
  · exact nodup_pathsOf updates
  · intro u hu
    exact mem_pathsOf.mpr (mem_map_of_mem hu)
  · nofun

omit [DecidableEq K] in
/-- A mutation begins with no locks. -/
theorem Mutation.Formed.begin (h : m.Formed) (s : State B K) :
  m.begin.Sound digest s id session
  := ⟨h, rfl, nofun⟩

omit [DecidableEq K] in
/-- The locks of a mutation can be given back. -/
theorem Owned.releasing (h : Owned s id m) (done : Bool) :
  (Phase.releasing m.paths.reverse done m).Sound digest s id session
  := by
  constructor
  · exact nodup_reverse.mpr h.formed.nodup
  · intro path hpath
    apply h.holds path (mem_reverse.mp hpath)

omit [DecidableEq K] in
/-- The files of a mutation can be restored. -/
theorem Prepared.restoring {captures : List (String × Option B)} (h : Prepared s id m captures) :
  (Phase.restoring captures.reverse m).Sound digest s id session
  := by
  use h.toOwned
  intro capture hcap
  apply h.captured capture (mem_reverse.mp hcap)

omit [DecidableEq K] in
/-- A gate that is passed now. -/
theorem Cleared.of_known
    {content : B} (hupd : m.updates = [⟨path, content, none⟩])
    (hknown : m.Plain → Known digest s.log session path (s.files path)) :
  Cleared digest s session { m with admission := s.log } m.updates
  := by
  intro hplain u hu
  rw [hupd] at hu
  obtain rfl := mem_singleton.mp hu
  exact ⟨suffix_rfl, rfl, hknown hplain⟩

omit [DecidableEq K] in
/-- The lock that is there for the taking is taken. -/
theorem Progress.acquire
    (hs : Invariant digest s) {held todo : List String}
    (h : (Phase.locking held (path :: todo) m).Sound digest s id session)
    (hfree : s.locks path = none) :
  Progress digest s (s.withLock path (some id)) id session (.locking (held ++ [path]) todo m)
  := by
  obtain ⟨hm, hpaths, hheld⟩ := h
  apply Progress.withLock hs
  · intro other _ hother
    rw [Holds, hfree] at hother
    cases hother
  use hm
  constructor
  · rw [← hpaths, append_assoc, singleton_append]
  intro path' hpath'
  simp only [Holds, State.withLock]
  by_cases hsame : path' = path
  · rw [hsame, Function.update_self]
  rw [Function.update_of_ne hsame]
  apply hheld
  rcases mem_append.mp hpath' with hmem | hmem
  · exact hmem
  · exact absurd (mem_singleton.mp hmem) hsame

omit [DecidableEq K] in
/-- A lock is given back. -/
theorem Progress.release
    (hs : Invariant digest s) {todo : List String} {done : Bool}
    (h : (Phase.releasing (path :: todo) done m).Sound digest s id session) :
  Progress digest s (s.withLock path none) id session (.releasing todo done m)
  := by
  obtain ⟨hnodup, hholds⟩ := h
  obtain ⟨hpath, hnodup⟩ := nodup_cons.mp hnodup
  apply Progress.withLock hs
  · intro other hne hother
    have hown := hholds path mem_cons_self
    rw [Holds] at hother hown
    rw [hown] at hother
    exact hne (Option.some.inj hother).symm
  use hnodup
  intro path' hpath'
  simp only [Holds, State.withLock]
  rw [Function.update_of_ne (ne_of_mem_of_not_mem hpath' hpath)]
  apply hholds path' (mem_cons_of_mem path hpath')

omit [DecidableEq K] in
/-- An update is written. If the mutation is that of a Write that goes by the record, the file is
still as it was when the gate was passed. -/
theorem Progress.write
    (hs : Invariant digest s) {u : Update B K} {todo : List (Update B K)}
    {captures : List (String × Option B)}
    (h : (Phase.writing (u :: todo) captures m).Sound digest s id session) :
  Progress digest s (s.put u.path (some u.content) (m.event session u.path (s.files u.path))) id
    session (.writing todo captures m)
  := by
  obtain ⟨hm, htodo, hcleared⟩ := h
  apply Progress.put hs
  · apply hm.holds u.path (hm.formed.paths u (htodo.subset mem_cons_self))
  · apply m.author_event
  · intro session' path' before' hevent
    obtain ⟨hplain, rfl, rfl, rfl⟩ := Mutation.plain_of_event hevent
    have hadm := hcleared hplain u mem_cons_self
    use m.admission, hadm.suffix, hadm.unchanged, hadm.known
  use ⟨⟨hm.formed, hm.holds⟩, hm.captured⟩, (suffix_cons u todo).trans htodo
  intro ⟨path, hgate⟩ v hv
  -- A Write has one update, so that nothing is left to be written.
  obtain ⟨content, hupd⟩ := hm.formed.gate _ hgate
  rw [hupd] at htodo
  have hlen := htodo.length_le
  simp only [length_cons, length_nil] at hlen
  obtain rfl := length_eq_zero_iff.mp (by omega : todo.length = 0)
  cases hv

omit [DecidableEq K] in
/-- A capture is put back. -/
theorem Progress.restore
    (hs : Invariant digest s) {captures rest : List (String × Option B)} (content : Option B)
    (h : (Phase.restoring captures m).Sound digest s id session)
    (hpath : path ∈ m.paths) (hrest : rest ⊆ captures) :
  Progress digest s (s.put path content (.changed session path)) id session (.restoring rest m)
  := by
  apply Progress.put hs
  · apply h.holds path hpath
  · exact if_pos rfl
  · nofun
  · use ⟨h.formed, h.holds⟩
    intro capture hcap
    apply h.captured capture (hrest hcap)

variable {phase : Phase B K} {t : State B K}

/-- The gate of a Write has seen the file. It is passed if there was none or if it has the digest
that is expected; with neither `force` nor `expect` that is the digest of the last record. -/
theorem Progress.judge
    (hs : Invariant digest s) {seen : Option B} {gate : Gate K}
    (hc : (Phase.judging seen gate m).Sound digest s id session)
    (h : s.proceed digest id ⟨session, .judging seen gate m⟩ = some (t, phase)) :
  Progress digest s t id session phase
  := by
  obtain ⟨hm, hgate, rfl⟩ := hc
  obtain ⟨content, hupd⟩ := hm.formed.gate gate hgate
  have hpass : (m.Plain → Known digest s.log session gate.path (s.files gate.path)) →
      (Phase.preparing { m with admission := s.log }).Sound digest s id session :=
    fun hknown => ⟨⟨⟨hm.formed.nodup, hm.formed.paths, hm.formed.gate⟩, hm.holds⟩,
      Cleared.of_known hupd hknown⟩
  cases hseen : s.files gate.path with
  | none =>
    rw [hseen] at h hpass
    cases h
    apply Progress.wait hs
    apply hpass
    intro _
    exact Or.inl rfl
  | some before =>
  rw [hseen] at h hpass
  simp only [State.proceed] at h
  split at h
  · cases h
    exact Progress.wait hs (hm.releasing false)
  rename_i expected hexp
  split_ifs at h with hdigest
  · cases h
    apply Progress.wait hs
    apply hpass
    rintro ⟨path, hplain⟩
    obtain rfl := Option.some.inj (hgate.symm.trans hplain)
    obtain ⟨known, hknown, hhash⟩ := hs.tracked.latest hexp
    right
    use before, known, rfl, hknown
    rw [hdigest, hhash]
  · cases h
    exact Progress.wait hs (hm.releasing false)

/-- What a call does when what it waits for is there. -/
theorem proceed_progress
    (hs : Invariant digest s) {c : Call B K}
    (hc : c.phase.Sound digest s id c.session) (h : s.proceed digest id c = some (t, phase)) :
  Progress digest s t id c.session phase
  := by
  obtain ⟨session, current⟩ := c
  have hwait : ∀ {next : Phase B K}, some (s, next) = some (t, phase) →
      next.Sound digest s id session → Progress digest s t id session phase := by
    intro next heq hnext
    cases heq
    exact Progress.wait hs hnext
  have hmove : ∀ {u : State B K} {next : Phase B K}, some (u, next) = some (t, phase) →
      Progress digest s u id session next → Progress digest s t id session phase := by
    intro u next heq hnext
    cases heq
    exact hnext
  cases current with
  | reading path =>
    simp only [State.proceed] at h
    split at h <;> exact hwait h True.intro
  | returning path content => exact hmove h (Progress.records hs [(path, content)])
  | collecting todo updates =>
    cases todo with
    | nil => exact hwait h ((Mutation.formed_ofEdits updates).begin s)
    | cons edit todo =>
      simp only [State.proceed] at h
      split at h <;> exact hwait h True.intro
  | confirming content path edit todo updates =>
    simp only [State.proceed] at h
    split_ifs at h
    · split at h <;> exact hwait h True.intro
    · exact hwait h True.intro
  | locking held todo m =>
    cases todo with
    | nil =>
      obtain ⟨hm, hpaths, hheld⟩ := hc
      apply hwait h
      use hm
      rw [← hpaths, append_nil]
      apply hheld
    | cons path todo =>
      simp only [State.proceed] at h
      split_ifs at h with hfree
      exact hmove h (Progress.acquire hs hc hfree)
  | gating m =>
    have hforced : ∀ (hplain : ¬ m.Plain), (Phase.preparing m).Sound digest s id session :=
      fun hplain => ⟨hc, fun h => absurd h hplain⟩
    simp only [State.proceed] at h
    split at h
    · rename_i hgate
      apply hwait h (hforced _)
      rintro ⟨path, hplain⟩
      rw [hgate] at hplain
      cases hplain
    rename_i gate hgate
    split_ifs at h with hforce
    · apply hwait h (hforced _)
      rintro ⟨path, hplain⟩
      obtain rfl := Option.some.inj (hgate.symm.trans hplain)
      cases hforce
    · exact hwait h ⟨hc, hgate, rfl⟩
  | judging seen gate m => exact Progress.judge hs hc h
  | preparing m =>
    apply hwait h
    refine ⟨⟨hc.1, ?_⟩, hc.2⟩
    intro capture hcap
    obtain ⟨path, hpath, rfl⟩ := mem_map.mp hcap
    exact hpath
  | checking todo captures m =>
    cases todo with
    | nil => exact hwait h ⟨hc.1, suffix_rfl, hc.2⟩
    | cons u todo =>
    simp only [State.proceed] at h
    split at h
    · exact hwait h hc
    · split_ifs at h
      · exact hwait h hc
      · exact hwait h hc.1.restoring
  | writing todo captures m =>
    cases todo with
    | nil => exact hwait h hc.1
    | cons u todo => exact hmove h (Progress.write hs hc)
  | verifying todo captures m =>
    cases todo with
    | nil => exact hwait h hc
    | cons u todo =>
    simp only [State.proceed] at h
    split_ifs at h
    · exact hwait h hc
    · exact hwait h hc.restoring
  | committing captures m => exact hwait h (hc.toOwned.releasing true)
  | restoring captures m =>
    cases captures with
    | nil => exact hwait h (hc.toOwned.releasing false)
    | cons capture captures =>
      apply hmove h
      apply Progress.restore hs _ hc (hc.captured capture mem_cons_self)
        (subset_cons_self capture captures)
  | releasing todo done m =>
    cases todo with
    | nil =>
      apply hwait h
      cases done <;> exact True.intro
    | cons path todo => exact hmove h (Progress.release hs hc)
  | recording m => exact hmove h (Progress.records hs _)
  | ended => cases h

omit [DecidableEq K] in
/-- A call that fails has made sure of what it needs to go on. -/
theorem failing_sound
    {next : Phase B K} (hphase : phase.Sound digest s id session) (h : phase.failing = some next) :
  next.Sound digest s id session
  := by
  cases phase with
  | reading _ | collecting _ _ | confirming _ _ _ _ _ | releasing _ _ _ =>
    cases h
    exact True.intro
  | locking held todo m =>
    cases h
    obtain ⟨hm, hpaths, hheld⟩ := hphase
    constructor
    · apply nodup_reverse.mpr
      have hnodup := hm.nodup
      rw [← hpaths] at hnodup
      exact hnodup.of_append_left
    · intro path hpath
      apply hheld path (mem_reverse.mp hpath)
  | gating m =>
    cases h
    exact hphase.releasing false
  | preparing m =>
    cases h
    exact hphase.1.releasing false
  | restoring captures m =>
    cases h
    exact hphase.toOwned.releasing false
  | checking todo captures m | writing todo captures m =>
    cases h
    exact hphase.1.restoring
  | verifying todo captures m | committing captures m =>
    cases h
    exact hphase.restoring
  | returning _ _ | judging _ _ _ | recording _ | ended => cases h

omit [DecidableEq K] in
/-- A call is at the wait at which it is. -/
theorem State.withPhase_self {c : Call B K} (h : s.calls id = some c) :
  s.withPhase id c c.phase = s
  := by
  rw [State.withPhase, ← h, Function.update_eq_self]

omit [DecidableEq K] in
/-- The progress of one call keeps the invariant. -/
theorem Progress.invariant
    (hs : Invariant digest s) {c : Call B K} (h : Progress digest s t id c.session phase) :
  Invariant digest (t.withPhase id c phase)
  := by
  constructor
  · intro other d hd
    simp only [State.withPhase] at hd
    by_cases hother : other = id
    · obtain rfl := hother
      rw [Function.update_self] at hd
      cases hd
      exact (Undisturbed.withPhase t other other c phase).sound h.sound
    · rw [Function.update_of_ne hother, h.calls] at hd
      apply ((h.others other hother).trans (Undisturbed.withPhase t other id c phase)).sound
      apply hs.calls other d hd
  · exact h.tracked
  · exact h.kept

/-- Every step keeps the invariant. -/
theorem Invariant.step
    (hs : Invariant digest s) {a : Action B K} (h : step digest s a = some t) :
  Invariant digest t
  := by
  cases a with
  | start id session job =>
    simp only [Sessions.step] at h
    split at h
    · cases h
    cases h
    apply Progress.invariant hs
    apply Progress.wait hs
    cases job with
    | read path => exact True.intro
    | write path content force expect =>
      exact (Mutation.formed_ofWrite path content force expect).begin s
    | edit edits => exact True.intro
  | go id =>
    obtain ⟨c, hc, hnext⟩ := Option.bind_eq_some_iff.mp h
    obtain ⟨⟨u, phase⟩, hproceed, rfl⟩ := Option.map_eq_some_iff.mp hnext
    apply Progress.invariant hs
    apply proceed_progress hs (hs.calls id c hc) hproceed
  | fail id =>
    obtain ⟨c, hc, hnext⟩ := Option.bind_eq_some_iff.mp h
    obtain ⟨phase, hfailing, rfl⟩ := Option.map_eq_some_iff.mp hnext
    apply Progress.invariant hs
    apply Progress.wait hs
    apply failing_sound (hs.calls id c hc) hfailing
  | tear id content =>
  obtain ⟨c, hc, hnext⟩ := Option.bind_eq_some_iff.mp h
  have hsound := hs.calls id c hc
  split at hnext
  · rename_i path _ captures m hphase
    cases hnext
    rw [hphase] at hsound
    have hprogress := Progress.restore hs (some content) hsound
      (hsound.captured _ mem_cons_self) (List.Subset.refl _)
    rw [← hphase] at hprogress
    have hinv := hprogress.invariant hs
    rw [State.withPhase_self (hprogress.calls ▸ hc)] at hinv
    exact hinv
  · cases hnext

end Steps

/-! ### Runs -/

omit [DecidableEq K] in
/-- Where nothing has happened there is nothing to keep. -/
theorem Invariant.start (digest : B → K) (files : String → Option B) :
  Invariant digest (State.start files)
  := by
  constructor
  · nofun
  · nofun
  · intro past session path before h
    cases suffix_nil.mp h

/-- In every run a Write that goes by the record finds no file, or a content with the digest of
what its session recorded last when the gate was passed, and the file has not changed since
then. -/
theorem kept_of_run
    (digest : B → K) (files : String → Option B) (actions : List (Action B K)) (t : State B K)
    (h : run (step digest) (State.start files) actions = some t) :
  Kept digest t.log
  := (run_invariant (fun _ _ _ hs hstep => hs.step hstep) (Invariant.start digest files) h).kept

/-- A call that is started and goes on for a number of steps. -/
def performed (id : ℕ) (session : String) (job : Job String String) (steps : ℕ) :
    List (Action String String) :=
  .start id session job :: List.replicate steps (.go id)

/-- One file with a content. -/
def oneFile (content : String) (path : String) : Option String :=
  if path = "f" then some content else none

/-- A session reads a file and writes it. -/
theorem kept_of_run_readThenWritten :
  ∃ t, run (step id) (State.start (oneFile "old"))
      (performed 0 "a" (.read "f") 2 ++ performed 1 "a" (.write "f" "new" false none) 15) = some t ∧
    t.files "f" = some "new" ∧ Kept id t.log
  := by
  have hrun : (run (step id) (State.start (oneFile "old"))
      (performed 0 "a" (.read "f") 2 ++ performed 1 "a" (.write "f" "new" false none) 15)).map
        (fun t => t.files "f") = some (some "new") := by
    decide +kernel
  obtain ⟨t, ht, hfile⟩ := Option.map_eq_some_iff.mp hrun
  use t, ht, hfile
  apply kept_of_run id (oneFile "old") _ t ht

/-! ### Another session in between -/

/-- Two sessions read a file. The second one writes something else and then what was there, and
the first one writes. -/
def writtenTwice : List (Action String String) :=
  performed 0 "a" (.read "f") 2 ++ performed 1 "b" (.read "f") 2 ++
    performed 2 "b" (.write "f" "new" false none) 15 ++
    performed 3 "b" (.write "f" "old" false none) 15 ++
    performed 4 "a" (.write "f" "mine" false none) 8

/-- What the first session replaces was put there by the second one since it was read. -/
theorem not_kept :
  ¬ ∀ (files : String → Option String) (actions : List (Action String String))
      (t : State String String), run (step id) (State.start files) actions = some t →
      ∀ past session path before, (.wrote session path before :: past) <:+ t.log → before = none ∨
          before = latest session path past ∧ foreignSince session path past = false
  := by
  intro h
  have hrun : (run (step id) (State.start (oneFile "old")) writtenTwice).map State.log = some
        [.wrote "a" "f" (some "old"), .recorded "b" "f" "old", .wrote "b" "f" (some "new"),
          .recorded "b" "f" "new", .wrote "b" "f" (some "old"), .recorded "b" "f" "old",
          .recorded "a" "f" "old"] := by
    decide +kernel
  obtain ⟨t, ht, hlog⟩ := Option.map_eq_some_iff.mp hrun
  have hclaim := h _ _ t ht
  rw [hlog] at hclaim
  have hlast := hclaim _ "a" "f" (some "old") suffix_rfl
  revert hlast
  decide +kernel

end Tools.Sessions
