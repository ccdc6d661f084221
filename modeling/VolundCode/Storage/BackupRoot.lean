import VolundCode.Storage.Backup

/-!
# The root of the backups

The sessions have their backups in directories under one root. A transaction of a session copies
files to its objects, and puts records of them into its manifest when it is committed. After that
it collects old backups: it lists the directories, measures them one after the other, and removes
those that are too old or too many. The transactions of all sessions take turns after every call
of the file system.

Every record of a manifest has its object, and no directory is removed under a transaction, in
every run in which the collection spares the sessions with open transactions (`backed_of_spares`).
It does not look for these itself, but goes by age and size.
-/

namespace Storage

open List

namespace BackupRoot

open Run
open BackupStore (BackupRecord Capture)

/-! ### Directories -/

/-- The directory of a session: the names of its objects, once there is a place for them, its
manifest and when it was last written, the transaction that has locked it, and those that have a
new manifest in a temporary file. -/
structure SessionDir (H : Type) where
  mtime : ℤ
  objects : Option (List H)
  manifest : Option (List (BackupRecord H) × ℤ)
  lockedBy : Option ℕ
  temporaries : List ℕ

/-- A directory that has just been made. -/
def SessionDir.empty {H : Type} (now : ℤ) : SessionDir H where
  mtime := now
  objects := none
  manifest := none
  lockedBy := none
  temporaries := []

/-! ### Transactions -/

/-- How far the capture of a file has come. -/
inductive CaptureState (H : Type) where
  | waiting
  | regular
  | hashed (hash : H)
  | placed (hash : H)
  | captured (c : Capture H)

/-- What is looked up next of a directory that may be removed: when its manifest was last written,
when the directory itself was, where it has none, or its size. -/
inductive Lookup where
  | manifest
  | directory
  | size (mtime : ℤ)
deriving DecidableEq

/-- What is known of a directory that may be removed. -/
structure Entry where
  session : String
  mtime : ℤ
  size : ℕ
deriving DecidableEq

/-- What a transaction does next, with what it has in memory. -/
inductive Phase (H : Type) where
  | preparing (captures : List (String × CaptureState H))
  | prepared (captures : List (Capture H))
  | hashing (stepId : String) (createdAt : ℤ) (captures : List (Capture H))
      (records : List (BackupRecord H)) (rest : List (Capture H))
  | makingDir (captures : List (Capture H)) (records : List (BackupRecord H))
  | locking (captures : List (Capture H)) (records : List (BackupRecord H))
  | reading (captures : List (Capture H)) (records : List (BackupRecord H))
  | writing (captures : List (Capture H)) (manifest : List (BackupRecord H))
  | replacing (captures : List (Capture H)) (manifest : List (BackupRecord H))
  | cleaning (captures : List (Capture H)) (renamed : Bool)
  | unlocking (captures : List (Capture H)) (renamed : Bool)
  | rollingBack (captures : List (Capture H)) (rest : List (Capture H))
  | rejected
  | rolledBack
  | settled
  | listing
  | measuring (rest : List (String × Lookup)) (entries : List Entry)
  | collecting (entries : List Entry) (total : ℕ)
  | finished

structure Transaction (H : Type) where
  session : String
  phase : Phase H

/-- How long and how much is kept. -/
structure Limits where
  retentionMs : ℤ
  maxBytes : ℕ

/-- A week, and 500 mebibytes. -/
def Limits.default : Limits where
  retentionMs := 7 * 24 * 60 * 60 * 1000
  maxBytes := 500 * 1024 * 1024

/-- The clock, the digests of what is in the files, the directories, the sessions that may have
one, the lock of the collection, and the transactions of all sessions. -/
structure World (H : Type) where
  clock : ℤ
  files : String → Option H
  dirs : String → Option (SessionDir H)
  sessions : List String
  collecting : Bool
  transactions : List (Transaction H)

/-- Before the first transaction. -/
def World.start {H : Type} (files : String → Option H) : World H where
  clock := 0
  files := files
  dirs := fun _ => none
  sessions := []
  collecting := false
  transactions := []

variable {H : Type} [DecidableEq H]

/-! ### Calls of the file system -/

/-- The directory of the session is made if there is none, and a place for objects in it. -/
def makeObjects (now : ℤ) : Option (SessionDir H) → SessionDir H
  | none => { SessionDir.empty now with objects := some [] }
  | some dir =>
    if dir.objects.isSome then dir else { dir with objects := some [], mtime := now }

/-- The directory of the session is made if there is none. -/
def makeDir (now : ℤ) : Option (SessionDir H) → SessionDir H
  | none => SessionDir.empty now
  | some dir => dir

/-- There is no file. -/
def absent (path : String) : Capture H where
  path := path
  existed := false
  beforeHash := none
  backupPath := none

/-- There is a file of this digest, and an object for it. -/
def present (path : String) (hash : H) : Capture H where
  path := path
  existed := true
  beforeHash := some hash
  backupPath := some hash

/-- The file is copied to the object, unless there is one. Where the place for objects or the file
is gone by now, the file is taken for one that was not there. -/
def copyFile (files : String → Option H) (path : String) (hash : H) :
    Option (SessionDir H) → Capture H × Option (SessionDir H)
  | none => (absent path, none)
  | some dir =>
    match dir.objects, files path with
    | some objects, some _ =>
      (present path hash,
        some { dir with objects := some (if hash ∈ objects then objects else hash :: objects) })
    | _, _ => (absent path, some dir)

/-- The next call for a file that is captured. -/
def captureNext (w : World H) (dir : Option (SessionDir H)) (path : String) :
    CaptureState H → CaptureState H × Option (SessionDir H)
  | .waiting => (if (w.files path).isSome then .regular else .captured (absent path), dir)
  | .regular =>
    match w.files path with
    | some hash => (.hashed hash, dir)
    | none => (.captured (absent path), dir)
  | .hashed hash => (.placed hash, some (makeObjects w.clock dir))
  | .placed hash =>
    let copied := copyFile w.files path hash dir
    (.captured copied.1, copied.2)
  | .captured c => (.captured c, dir)

/-- The capture of one of the files goes on. -/
def captureStep (w : World H) (dir : Option (SessionDir H)) (path : String) :
    List (String × CaptureState H) → List (String × CaptureState H) × Option (SessionDir H)
  | [] => ([], dir)
  | (p, state) :: rest =>
    if p = path then
      let next := captureNext w dir path state
      ((p, next.1) :: rest, next.2)
    else
      let next := captureStep w dir path rest
      ((p, state) :: next.1, next.2)

/-- The captures, when all of them are made. -/
def captured : List (String × CaptureState H) → Option (List (Capture H))
  | [] => some []
  | (_, .captured c) :: rest => (captured rest).map fun cs => c :: cs
  | _ => none

/-- The record of a capture whose file has this digest now. -/
def recordOf (stepId : String) (createdAt : ℤ) (c : Capture H) (hash : H) : BackupRecord H where
  path := c.path
  existed := c.existed
  beforeHash := c.beforeHash
  afterHash := hash
  backupPath := c.backupPath
  createdAt := createdAt
  stepId := some stepId
  consumedAt := none

/-- The next call of a transaction `t` for its own session: what it does then, and what becomes of
the directory. Where a call of a commit throws, the manifest is unlocked if it is locked, and the
transaction is as it was before. -/
def commitNext (w : World H) (t : ℕ) (dir : Option (SessionDir H)) :
    Phase H → Option (Phase H × Option (SessionDir H))
  | .preparing captures => (captured captures).map fun cs => (.prepared cs, dir)
  | .hashing stepId createdAt captures records rest =>
    match rest with
    | [] => some (.makingDir captures records, dir)
    | c :: rest =>
      match w.files c.path with
      | some hash =>
        some (.hashing stepId createdAt captures
          (records ++ [recordOf stepId createdAt c hash]) rest, dir)
      | none => some (.prepared captures, dir)
  | .makingDir captures records => some (.locking captures records, some (makeDir w.clock dir))
  | .locking captures records =>
    match dir with
    | none => some (.prepared captures, dir)
    | some d =>
      match d.lockedBy with
      | some _ => none
      | none => some (.reading captures records, some { d with lockedBy := some t, mtime := w.clock })
  | .reading captures records =>
    some (.writing captures (records ++ (dir.bind SessionDir.manifest).elim [] Prod.fst), dir)
  | .writing captures manifest =>
    match dir with
    | none => some (.cleaning captures false, dir)
    | some d =>
      some (.replacing captures manifest,
        some { d with temporaries := t :: d.temporaries, mtime := w.clock })
  | .replacing captures manifest =>
    match dir with
    | none => some (.cleaning captures false, dir)
    | some d =>
      if t ∈ d.temporaries then
        some (.cleaning captures true, some { d with
            manifest := some (manifest, w.clock)
            temporaries := d.temporaries.erase t
            mtime := w.clock })
      else some (.cleaning captures false, dir)
  | .cleaning captures renamed =>
    some (.unlocking captures renamed,
      dir.map fun d => { d with temporaries := d.temporaries.erase t, mtime := w.clock })
  | .unlocking captures renamed =>
    some (if renamed then .settled else .prepared captures,
      dir.map fun d => if d.lockedBy = some t then { d with lockedBy := none, mtime := w.clock } else d)
  | _ => none

/-- What a transaction does after a call has thrown. A commit or a rollback can be tried again. -/
def failed : Phase H → Option (Phase H)
  | .preparing _ => some .rejected
  | .hashing _ _ captures _ _ => some (.prepared captures)
  | .makingDir captures _ => some (.prepared captures)
  | .locking captures _ => some (.prepared captures)
  | .reading captures _ => some (.cleaning captures false)
  | .writing captures _ => some (.cleaning captures false)
  | .replacing captures _ => some (.cleaning captures false)
  | .cleaning captures _ => some (.prepared captures)
  | .unlocking captures _ => some (.prepared captures)
  | .rollingBack captures _ => some (.prepared captures)
  | .settled => some .finished
  | .listing => some .finished
  | .measuring _ _ => some .finished
  | .collecting _ _ => some .finished
  | _ => none

/-- The transaction collects old backups, and holds the lock of the collection. -/
def Phase.collects : Phase H → Bool
  | .listing => true
  | .measuring _ _ => true
  | .collecting _ _ => true
  | _ => false

/-- The next call of a rollback: what the transaction does then, and what becomes of the files. -/
def rollbackNext (w : World H) (dir : Option (SessionDir H)) (captures : List (Capture H)) :
    List (Capture H) → Phase H × (String → Option H)
  | [] => (.rolledBack, w.files)
  | c :: rest =>
    match c.backupPath with
    | some backup =>
      if ((dir.bind SessionDir.objects).getD []).contains backup then
        (.rollingBack captures rest, Function.update w.files c.path (some backup))
      else (.prepared captures, w.files)
    | none => (.rollingBack captures rest, Function.update w.files c.path none)

/-- The directories in the order in which they are considered. -/
def oldestFirst (entries : List Entry) : List Entry :=
  entries.insertionSort fun a b => a.mtime ≤ b.mtime

/-- The directory is kept. -/
def keeps (limits : Limits) (now : ℤ) (entry : Entry) (total : ℕ) : Bool :=
  decide (now - entry.mtime ≤ limits.retentionMs ∧ total ≤ limits.maxBytes)

/-- The next look at a directory: the entry of a directory whose size is known, or what to look up
next. It throws where the directory is gone. -/
def measureNext (dir : Option (SessionDir H)) (session : String) (size : ℕ) :
    Lookup → Option (Entry ⊕ Lookup)
  | .manifest =>
    match dir.bind SessionDir.manifest with
    | some manifest => some (.inr (.size manifest.2))
    | none => some (.inr .directory)
  | .directory => dir.map fun d => .inr (.size d.mtime)
  | .size mtime =>
    dir.map fun _ => .inl { session := session, mtime := mtime, size := size }

/-! ### Steps -/

/-- What happens to the files and the transactions: among others, a transaction makes its next call,
or this throws. The transaction is given by its number, and the size is what is counted when a
directory is measured. -/
inductive Action (H : Type) where
  | tick (now : ℤ)
  | edit (path : String) (content : Option H)
  | begin (session : String) (paths : List String)
  | capture (t : ℕ) (path : String)
  | commit (t : ℕ) (stepId : String)
  | rollback (t : ℕ)
  | next (t : ℕ)
  | fail (t : ℕ)
  | measure (t : ℕ) (session : String) (size : ℕ)

/-- A transaction goes on, and the directory of its session is changed. -/
def World.advance (w : World H) (t : ℕ) (tr : Transaction H) (phase : Phase H)
    (dir : Option (SessionDir H)) : World H :=
  { w with
    dirs := Function.update w.dirs tr.session dir
    transactions := w.transactions.set t { tr with phase := phase } }

/-- A transaction goes on. -/
def World.goOn (w : World H) (t : ℕ) (tr : Transaction H) (phase : Phase H) : World H :=
  { w with transactions := w.transactions.set t { tr with phase := phase } }

/-- The directories are listed. -/
def list (w : World H) : List (String × Lookup) :=
  (w.sessions.filter fun session => (w.dirs session).isSome).map fun session => (session, .manifest)

/-- The next directory is considered: it is kept, or it is removed with all that is in it. -/
def collectNext (limits : Limits) (w : World H) (t : ℕ) (tr : Transaction H) (entry : Entry)
    (rest : List Entry) (total : ℕ) : World H :=
  if keeps limits w.clock entry total then w.goOn t tr (.collecting rest total)
  else
    { w.goOn t tr (.collecting rest (total - entry.size)) with
      dirs := Function.update w.dirs entry.session none }

/-- The next call of a transaction. -/
def nextCall (limits : Limits) (w : World H) (t : ℕ) (tr : Transaction H) : Option (World H) :=
  match tr.phase with
  | .rollingBack captures rest =>
    let next := rollbackNext w (w.dirs tr.session) captures rest
    some { w.goOn t tr next.1 with files := next.2 }
  | .settled =>
    if w.collecting then some (w.goOn t tr .finished)
    else some { w.goOn t tr .listing with collecting := true }
  | .listing => some (w.goOn t tr (.measuring (list w) []))
  | .measuring [] entries =>
    some (w.goOn t tr (.collecting (oldestFirst entries) (entries.map Entry.size).sum))
  | .collecting [] _ => some { w.goOn t tr .finished with collecting := false }
  | .collecting (entry :: rest) total => some (collectNext limits w t tr entry rest total)
  | phase =>
    (commitNext w t (w.dirs tr.session) phase).map fun next => w.advance t tr next.1 next.2

/-- A directory is measured. Where it is gone the collection ends. -/
def measure (w : World H) (t : ℕ) (tr : Transaction H) (session : String) (size : ℕ)
    (rest : List (String × Lookup)) (entries : List Entry) : Option (World H) :=
  (rest.find? fun e => e.1 = session).map fun e =>
    match measureNext (w.dirs session) session size e.2 with
    | some (.inl entry) =>
      w.goOn t tr (.measuring (rest.filter fun e => e.1 ≠ session) (entries ++ [entry]))
    | some (.inr lookup) =>
      w.goOn t tr (.measuring (rest.map fun e => if e.1 = session then (session, lookup) else e)
        entries)
    | none => { w.goOn t tr .finished with collecting := false }

/-- The world after an action, if it can happen. -/
def step (limits : Limits) (w : World H) : Action H → Option (World H)
  | .tick now => if w.clock ≤ now then some { w with clock := now } else none
  | .edit path content => some { w with files := Function.update w.files path content }
  | .begin session paths =>
    some
      { w with
        sessions := if session ∈ w.sessions then w.sessions else session :: w.sessions
        transactions := w.transactions ++
          [{ session := session
             phase := .preparing (paths.eraseDups.map fun path => (path, .waiting)) }] }
  | .capture t path =>
    w.transactions[t]?.bind fun tr =>
      match tr.phase with
      | .preparing captures =>
        let next := captureStep w (w.dirs tr.session) path captures
        some (w.advance t tr (.preparing next.1) next.2)
      | _ => none
  | .commit t stepId =>
    w.transactions[t]?.bind fun tr =>
      match tr.phase with
      | .prepared captures =>
        some (w.goOn t tr (.hashing stepId w.clock captures [] captures))
      | _ => none
  | .rollback t =>
    w.transactions[t]?.bind fun tr =>
      match tr.phase with
      | .prepared captures => some (w.goOn t tr (.rollingBack captures captures.reverse))
      | _ => none
  | .next t => w.transactions[t]?.bind fun tr => nextCall limits w t tr
  | .fail t =>
    w.transactions[t]?.bind fun tr =>
      (failed tr.phase).map fun phase =>
        { w.goOn t tr phase with collecting := w.collecting && !tr.phase.collects }
  | .measure t session size =>
    w.transactions[t]?.bind fun tr =>
      match tr.phase with
      | .measuring rest entries => measure w t tr session size rest entries
      | _ => none

/-! ### What is kept -/

/-- The transaction has been prepared and is not settled. -/
def Phase.unsettled : Phase H → Bool
  | .preparing _ => false
  | .rejected => false
  | .rolledBack => false
  | .settled => false
  | .listing => false
  | .measuring _ _ => false
  | .collecting _ _ => false
  | .finished => false
  | _ => true

/-- The transaction is being prepared, or it is prepared and not settled. -/
def Phase.isOpen : Phase H → Bool
  | .preparing _ => true
  | phase => phase.unsettled

/-- The names of the objects in a directory. -/
def objectsOf (dir : Option (SessionDir H)) : List H :=
  (dir.bind SessionDir.objects).getD []

/-- What existed has its object. -/
def Backed (dir : Option (SessionDir H)) (existed : Bool) (backup : Option H) : Prop :=
  existed → ∃ name, backup = some name ∧ name ∈ objectsOf dir

/-- The records of the manifest have their objects. -/
def ManifestBacked (dir : Option (SessionDir H)) : Prop :=
  ∀ d, dir = some d → ∀ manifest, d.manifest = some manifest →
    ∀ r ∈ manifest.1, Backed dir r.existed r.backupPath

/-- The directory that is considered next, and how many bytes there are. -/
def Phase.considers : Phase H → Option (Entry × ℕ)
  | .collecting (entry :: _) total => some (entry, total)
  | _ => none

/-- A collection does not come to remove the directory of a session with an open transaction: where
it considers the directory of one, this is neither too old nor are there too many bytes. -/
def Spares (limits : Limits) (w : World H) : Action H → Prop
  | .next t =>
    ∀ tr ∈ w.transactions[t]?, ∀ considered ∈ tr.phase.considers, ∀ other ∈ w.transactions,
      other.session = considered.1.session → other.phase.isOpen →
        keeps limits w.clock considered.1 considered.2
  | _ => True

instance Backed.decidable (dir : Option (SessionDir H)) (existed : Bool) (backup : Option H) :
  Decidable (Backed dir existed backup)
  := inferInstanceAs (Decidable (existed → ∃ name ∈ backup, name ∈ objectsOf dir))

instance ManifestBacked.decidable (dir : Option (SessionDir H)) :
  Decidable (ManifestBacked dir)
  := inferInstanceAs (Decidable (∀ d ∈ dir, ∀ manifest ∈ d.manifest,
      ∀ r ∈ manifest.1, Backed dir r.existed r.backupPath))

instance Spares.decidable (limits : Limits) (w : World H) : (a : Action H) → Decidable (Spares limits w a)
  | .next t =>
    inferInstanceAs (Decidable (∀ tr ∈ w.transactions[t]?, ∀ considered ∈ tr.phase.considers,
      ∀ other ∈ w.transactions, other.session = considered.1.session → other.phase.isOpen →
        keeps limits w.clock considered.1 considered.2))
  | .tick _ | .edit _ _ | .begin _ _ | .capture _ _ | .commit _ _ | .rollback _ | .fail _
  | .measure _ _ _ => isTrue True.intro

set_option linter.unusedSectionVars false

/-! ### One step -/

/-- A directory with all objects of another one. -/
def Grows (dir dir' : Option (SessionDir H)) : Prop :=
  ∀ name ∈ objectsOf dir, name ∈ objectsOf dir'

/-- A capture that is made has its object. -/
def CaptureState.Backed (dir : Option (SessionDir H)) : CaptureState H → Prop
  | .captured c => BackupRoot.Backed dir c.existed c.backupPath
  | _ => True

/-- What a transaction has in memory has its objects. -/
def Phase.Backed (dir : Option (SessionDir H)) : Phase H → Prop
  | .preparing captures => ∀ c ∈ captures, c.2.Backed dir
  | .prepared captures => ∀ c ∈ captures, BackupRoot.Backed dir c.existed c.backupPath
  | .hashing _ _ captures records rest =>
    (∀ c ∈ captures, BackupRoot.Backed dir c.existed c.backupPath) ∧
      (∀ r ∈ records, BackupRoot.Backed dir r.existed r.backupPath) ∧
        ∀ c ∈ rest, BackupRoot.Backed dir c.existed c.backupPath
  | .makingDir captures records | .locking captures records | .reading captures records
  | .writing captures records | .replacing captures records =>
    (∀ c ∈ captures, BackupRoot.Backed dir c.existed c.backupPath) ∧
      ∀ r ∈ records, BackupRoot.Backed dir r.existed r.backupPath
  | .cleaning captures _ | .unlocking captures _ | .rollingBack captures _ =>
    ∀ c ∈ captures, BackupRoot.Backed dir c.existed c.backupPath
  | _ => True

theorem Grows.refl (dir : Option (SessionDir H)) :
  Grows dir dir
  := fun _ h => h

variable {dir dir' : Option (SessionDir H)}

/-- What has its object keeps it while the directory grows. -/
theorem Backed.mono {existed : Bool} {backup : Option H}
    (h : Backed dir existed backup) (hgrows : Grows dir dir') :
  Backed dir' existed backup
  := by
  intro hexisted
  obtain ⟨name, hname, hmem⟩ := h hexisted
  exact ⟨name, hname, hgrows name hmem⟩

/-- A capture keeps its object while the directory grows. -/
theorem CaptureState.Backed.mono {state : CaptureState H}
    (h : state.Backed dir) (hgrows : Grows dir dir') :
  state.Backed dir'
  := by
  cases state with
  | captured c => exact BackupRoot.Backed.mono h hgrows
  | _ => exact True.intro

/-- What is in memory keeps its objects while the directory grows. -/
theorem Phase.Backed.mono (phase : Phase H) (h : phase.Backed dir) (hgrows : Grows dir dir') :
  phase.Backed dir'
  := by
  have hcaps {cs : List (Capture H)} (hcs : ∀ c ∈ cs, BackupRoot.Backed dir c.existed c.backupPath) :
      ∀ c ∈ cs, BackupRoot.Backed dir' c.existed c.backupPath := fun c hc => (hcs c hc).mono hgrows
  have hrecs {rs : List (BackupRecord H)}
      (hrs : ∀ r ∈ rs, BackupRoot.Backed dir r.existed r.backupPath) :
      ∀ r ∈ rs, BackupRoot.Backed dir' r.existed r.backupPath := fun r hr => (hrs r hr).mono hgrows
  cases phase with
  | preparing captures => exact fun c hc => (h c hc).mono hgrows
  | prepared captures => exact hcaps h
  | hashing stepId createdAt captures records rest =>
    exact ⟨hcaps h.1, hrecs h.2.1, hcaps h.2.2⟩
  | makingDir captures records | locking captures records | reading captures records
  | writing captures records | replacing captures records => exact ⟨hcaps h.1, hrecs h.2⟩
  | cleaning captures renamed | unlocking captures renamed | rollingBack captures rest =>
    exact hcaps h
  | _ => exact True.intro

/-- The directory is still there and has grown, and the records of its manifest have their objects,
if they had before. -/
structure Changes (dir dir' : Option (SessionDir H)) : Prop where
  stays : dir.isSome → dir'.isSome
  grows : Grows dir dir'
  manifest : ManifestBacked dir → ManifestBacked dir'

theorem Changes.refl (dir : Option (SessionDir H)) :
  Changes dir dir
  := ⟨id, Grows.refl dir, id⟩

variable {d : SessionDir H}

/-- A directory that has grown and has the manifest it had. -/
theorem Changes.of_same {d' : SessionDir H} (hgrows : Grows (some d) (some d'))
    (hman : d'.manifest = d.manifest) :
  Changes (some d) (some d')
  := by
  use fun _ => rfl, hgrows
  intro h e he manifest hm r hr
  cases he
  rw [hman] at hm
  exact (h d rfl manifest hm r hr).mono hgrows

/-- A directory that has just been made. -/
theorem Changes.of_none (hman : d.manifest = none) :
  Changes none (some d)
  := by
  refine ⟨fun _ => rfl, ?_, ?_⟩
  · intro name hname
    cases hname
  intro _ e he manifest hm
  cases he
  rw [hman] at hm
  cases hm

theorem makeObjects_changes (now : ℤ) (dir : Option (SessionDir H)) :
  Changes dir (some (makeObjects now dir))
  := by
  cases dir with
  | none => exact Changes.of_none rfl
  | some d =>
  rw [makeObjects]
  split_ifs with hobjs
  · exact Changes.refl _
  have hgrows : Grows (some d) (some { d with objects := some [], mtime := now }) := by
    intro name hname
    rw [Bool.not_eq_true, Option.isSome_eq_false_iff, Option.isNone_iff_eq_none] at hobjs
    rw [objectsOf, Option.bind_some, hobjs] at hname
    cases hname
  exact Changes.of_same hgrows rfl

/-- The copy of a file has its object. -/
theorem copyFile_changes (files : String → Option H) (path : String) (hash : H)
    (dir : Option (SessionDir H)) :
  Changes dir (copyFile files path hash dir).2 ∧
    (CaptureState.captured (copyFile files path hash dir).1).Backed (copyFile files path hash dir).2
  := by
  have habsent : ∀ d : Option (SessionDir H), (CaptureState.captured (absent path)).Backed d := by
    intro d hexisted
    cases hexisted
  cases dir with
  | none => exact ⟨Changes.refl none, habsent none⟩
  | some d =>
  rw [copyFile]
  split
  · rename_i objects _ hobjs _
    have hgrows : Grows (some d) (some { d with
        objects := some (if hash ∈ objects then objects else hash :: objects) }) := by
      intro name hname
      rw [objectsOf, Option.bind_some, hobjs] at hname
      rw [objectsOf, Option.bind_some]
      split_ifs with hmem
      · exact hname
      · exact mem_cons_of_mem hash hname
    use Changes.of_same hgrows rfl
    intro _
    use hash, rfl
    rw [objectsOf, Option.bind_some]
    split_ifs with hmem
    · exact hmem
    · exact mem_cons_self
  · exact ⟨Changes.refl _, habsent _⟩

/-- The next call for a file that is captured leaves it backed. -/
theorem captureNext_changes (w : World H) (dir : Option (SessionDir H)) (path : String)
    {state : CaptureState H} (h : state.Backed dir) :
  Changes dir (captureNext w dir path state).2 ∧
    (captureNext w dir path state).1.Backed (captureNext w dir path state).2
  := by
  cases state with
  | waiting =>
    use Changes.refl dir
    rw [captureNext]
    split_ifs
    · exact True.intro
    · intro hexisted
      cases hexisted
  | regular =>
    rw [captureNext]
    split
    · exact ⟨Changes.refl dir, True.intro⟩
    · use Changes.refl dir
      intro hexisted
      cases hexisted
  | hashed hash => exact ⟨makeObjects_changes w.clock dir, True.intro⟩
  | placed hash => exact copyFile_changes w.files path hash dir
  | captured c => exact ⟨Changes.refl dir, h⟩

/-- The capture of one of the files leaves all of them backed. -/
theorem captureStep_changes (w : World H) (dir : Option (SessionDir H)) (path : String)
    {captures : List (String × CaptureState H)} (h : ∀ c ∈ captures, c.2.Backed dir) :
  Changes dir (captureStep w dir path captures).2 ∧
    ∀ c ∈ (captureStep w dir path captures).1, c.2.Backed (captureStep w dir path captures).2
  := by
  induction captures with
  | nil => exact ⟨Changes.refl dir, by simp [captureStep]⟩
  | cons c captures ih =>
  obtain ⟨p, state⟩ := c
  rw [forall_mem_cons] at h
  rw [captureStep]
  split_ifs with hp
  · obtain ⟨hchg, hbacked⟩ := captureNext_changes w dir path h.1
    use hchg
    rw [forall_mem_cons]
    use hbacked
    exact fun c hc => (h.2 c hc).mono hchg.grows
  obtain ⟨hchg, hbacked⟩ := ih h.2
  use hchg
  rw [forall_mem_cons]
  exact ⟨h.1.mono hchg.grows, hbacked⟩

/-- Captures that are all made have their objects. -/
theorem captured_backed {captures : List (String × CaptureState H)}
    {cs : List (Capture H)} (h : ∀ c ∈ captures, c.2.Backed dir) (hcs : captured captures = some cs) :
  ∀ c ∈ cs, Backed dir c.existed c.backupPath
  := by
  induction captures generalizing cs with
  | nil =>
    cases hcs
    simp
  | cons c captures ih =>
  obtain ⟨p, state⟩ := c
  rw [forall_mem_cons] at h
  cases state with
  | captured c =>
    obtain ⟨cs', hcs', rfl⟩ := Option.map_eq_some_iff.mp hcs
    rw [forall_mem_cons]
    exact ⟨h.1, ih h.2 hcs'⟩
  | waiting | regular | hashed hash | placed hash => cases hcs

/-- The record of a capture has the object of the capture. -/
theorem recordOf_backed {c : Capture H}
    (h : Backed dir c.existed c.backupPath) (stepId : String) (createdAt : ℤ) (hash : H) :
  Backed dir (recordOf stepId createdAt c hash).existed
    (recordOf stepId createdAt c hash).backupPath
  := h

/-- A directory whose lock or temporary files are written has the objects and the manifest it
had. -/
theorem Changes.of_kept {d' : SessionDir H} (hobjs : d'.objects = d.objects)
    (hman : d'.manifest = d.manifest) :
  Changes (some d) (some d')
  := by
  apply Changes.of_same _ hman
  intro name hname
  rw [objectsOf, Option.bind_some] at hname ⊢
  rw [hobjs]
  exact hname

/-- A manifest of records with objects is put into a directory with the same objects. -/
theorem Changes.of_manifest {d' : SessionDir H} {records : List (BackupRecord H)} {now : ℤ}
    (hrecs : ∀ r ∈ records, Backed (some d) r.existed r.backupPath)
    (hobjs : d'.objects = d.objects) (hman : d'.manifest = some (records, now)) :
  Changes (some d) (some d')
  := by
  have hgrows : Grows (some d) (some d') := by
    intro name hname
    rw [objectsOf, Option.bind_some] at hname ⊢
    rw [hobjs]
    exact hname
  use fun _ => rfl, hgrows
  intro _ e he manifest hm r hr
  cases he
  rw [hman] at hm
  cases hm
  exact (hrecs r hr).mono hgrows

variable {t : ℕ} {w : World H} {phase : Phase H}

/-- The next call of a transaction for its own session keeps what is there, and what the
transaction has in memory then has its objects. -/
theorem commitNext_changes
    {phase' : Phase H} (hdir : ManifestBacked dir) (hphase : phase.Backed dir)
    (hnext : commitNext w t dir phase = some (phase', dir')) :
  Changes dir dir' ∧ phase'.Backed dir'
  := by
  cases phase with
  | preparing captures =>
    obtain ⟨cs, hcs, heq⟩ := Option.map_eq_some_iff.mp hnext
    obtain ⟨rfl, rfl⟩ := Prod.mk.inj heq
    exact ⟨Changes.refl dir, captured_backed hphase hcs⟩
  | hashing stepId createdAt captures records rest =>
    obtain ⟨hcaps, hrecs, hrest⟩ := hphase
    cases rest with
    | nil =>
      cases hnext
      exact ⟨Changes.refl dir, hcaps, hrecs⟩
    | cons c rest =>
    rw [forall_mem_cons] at hrest
    rw [commitNext] at hnext
    split at hnext
    · rename_i hash _
      cases hnext
      use Changes.refl dir, hcaps
      constructor
      · rw [forall_mem_append]
        use hrecs
        rw [forall_mem_singleton]
        exact recordOf_backed hrest.1 stepId createdAt hash
      · exact hrest.2
    · cases hnext
      exact ⟨Changes.refl dir, hcaps⟩
  | makingDir captures records =>
    cases hnext
    have hchg : Changes dir (some (makeDir w.clock dir)) := by
      cases dir with
      | none => exact Changes.of_none rfl
      | some d => exact Changes.refl _
    use hchg
    exact Phase.Backed.mono (.locking captures records) hphase hchg.grows
  | locking captures records =>
    cases dir with
    | none =>
      cases hnext
      exact ⟨Changes.refl none, hphase.1⟩
    | some d =>
    simp only [commitNext] at hnext
    split at hnext
    · cases hnext
    cases hnext
    have hchg : Changes (some d) (some { d with lockedBy := some t, mtime := w.clock }) :=
      Changes.of_kept rfl rfl
    use hchg
    exact Phase.Backed.mono (.reading captures records) hphase hchg.grows
  | reading captures records =>
    cases hnext
    use Changes.refl dir, hphase.1
    rw [forall_mem_append]
    use hphase.2
    intro r hr
    cases dir with
    | none => cases hr
    | some d =>
    rw [Option.bind_some] at hr
    cases hman : d.manifest with
    | none =>
      rw [hman] at hr
      cases hr
    | some manifest =>
      rw [hman] at hr
      exact hdir d rfl manifest hman r hr
  | writing captures manifest =>
    cases dir with
    | none =>
      cases hnext
      exact ⟨Changes.refl none, hphase.1⟩
    | some d =>
    cases hnext
    have hchg : Changes (some d)
        (some { d with temporaries := t :: d.temporaries, mtime := w.clock }) :=
      Changes.of_kept rfl rfl
    use hchg
    exact Phase.Backed.mono (.replacing captures manifest) hphase hchg.grows
  | replacing captures manifest =>
    cases dir with
    | none =>
      cases hnext
      exact ⟨Changes.refl none, hphase.1⟩
    | some d =>
    simp only [commitNext] at hnext
    split_ifs at hnext
    · cases hnext
      have hchg : Changes (some d) (some
          { d with
            manifest := some (manifest, w.clock)
            temporaries := d.temporaries.erase t
            mtime := w.clock }) := Changes.of_manifest hphase.2 rfl rfl
      use hchg
      exact Phase.Backed.mono (.cleaning captures true) hphase.1 hchg.grows
    · cases hnext
      exact ⟨Changes.refl _, hphase.1⟩
  | cleaning captures renamed =>
    cases hnext
    cases dir with
    | none => exact ⟨Changes.refl none, hphase⟩
    | some d =>
    have hchg : Changes (some d)
        (some { d with temporaries := d.temporaries.erase t, mtime := w.clock }) :=
      Changes.of_kept rfl rfl
    use hchg
    exact Phase.Backed.mono (.unlocking captures renamed) hphase hchg.grows
  | unlocking captures renamed =>
    cases hnext
    have hchg : Changes dir (dir.map fun d =>
        if d.lockedBy = some t then { d with lockedBy := none, mtime := w.clock } else d) := by
      cases dir with
      | none => exact Changes.refl none
      | some d =>
      rw [Option.map_some]
      split_ifs
      · exact Changes.of_kept rfl rfl
      · exact Changes.refl _
    use hchg
    cases renamed with
    | true => exact True.intro
    | false => exact Phase.Backed.mono (.prepared captures) hphase hchg.grows
  | _ => cases hnext

/-- A call that throws leaves in memory what has its objects. -/
theorem failed_backed {phase' : Phase H}
    (hphase : phase.Backed dir) (hfail : failed phase = some phase') :
  phase'.Backed dir
  := by
  cases phase with
  | hashing stepId createdAt captures records rest | makingDir captures records
  | locking captures records | reading captures records | writing captures records
  | replacing captures records =>
    cases hfail
    exact hphase.1
  | cleaning captures renamed | unlocking captures renamed | rollingBack captures rest =>
    cases hfail
    exact hphase
  | _ =>
    cases hfail <;> exact True.intro

/-- A transaction that is not open needs no object. -/
theorem Phase.backed_of_not_open
    (h : phase.isOpen = false) :
  phase.Backed dir
  := by
  cases phase with
  | rejected | rolledBack | settled | listing | measuring rest entries
  | collecting entries total | finished => exact True.intro
  | _ => cases h

theorem Phase.isOpen_of_unsettled (h : phase.unsettled) :
  phase.isOpen
  := by
  cases phase with
  | preparing captures => rfl
  | _ => exact h

/-- All manifests have their objects, and all that the transactions have in memory. -/
structure World.Backed (w : World H) : Prop where
  manifests : ∀ session, ManifestBacked (w.dirs session)
  memories : ∀ tr ∈ w.transactions, tr.phase.Backed (w.dirs tr.session)

/-- After the step all has its objects, and the directories of open transactions are still there. -/
structure Kept (w w' : World H) : Prop where
  backed : w'.Backed
  dirs : ∀ tr ∈ w.transactions, tr.phase.isOpen → (w.dirs tr.session).isSome →
    (w'.dirs tr.session).isSome

variable {w' : World H}

/-- The directories and transactions are those of the world. -/
theorem Kept.of_same (hw : w.Backed) (hdirs : w'.dirs = w.dirs)
    (htxs : ∀ tr ∈ w'.transactions, tr ∈ w.transactions ∨ tr.phase.Backed (w.dirs tr.session)) :
  Kept w w'
  := by
  constructor
  · constructor
    · rw [hdirs]
      exact hw.manifests
    intro tr htr
    rw [hdirs]
    rcases htxs tr htr with hold | hnew
    · exact hw.memories tr hold
    · exact hnew
  · intro tr _ _ hdir
    rw [hdirs]
    exact hdir

variable {tr : Transaction H}

/-- A transaction goes on with what has its objects. -/
theorem goOn_kept (t : ℕ) (phase : Phase H) (hw : w.Backed)
    (hphase : phase.Backed (w.dirs tr.session)) :
  Kept w (w.goOn t tr phase)
  := by
  refine Kept.of_same hw rfl ?_
  intro tr' htr'
  rcases mem_or_eq_of_mem_set htr' with hold | rfl
  · exact Or.inl hold
  · exact Or.inr hphase

/-- Files, clock and the lock of the collection do not matter. -/
theorem Kept.congr {w'' : World H} (h : Kept w w') (hdirs : w''.dirs = w'.dirs)
    (htxs : w''.transactions = w'.transactions) :
  Kept w w''
  := by
  constructor
  · constructor
    · rw [hdirs]
      exact h.backed.manifests
    · rw [hdirs, htxs]
      exact h.backed.memories
  · rw [hdirs]
    exact h.dirs

/-- A transaction goes on, and its directory changes. -/
theorem advance_kept
    (hw : w.Backed) (hchg : Changes (w.dirs tr.session) dir) (hphase : phase.Backed dir) :
  Kept w (w.advance t tr phase dir)
  := by
  have hall : ∀ session, Changes (w.dirs session) ((w.advance t tr phase dir).dirs session) := by
    intro session
    change Changes (w.dirs session) (Function.update w.dirs tr.session dir session)
    by_cases hsess : session = tr.session
    · subst hsess
      rw [Function.update_self]
      exact hchg
    · rw [Function.update_of_ne hsess]
      exact Changes.refl _
  constructor
  · constructor
    · intro session
      exact (hall session).manifest (hw.manifests session)
    intro tr' htr'
    rcases mem_or_eq_of_mem_set htr' with hold | rfl
    · exact Phase.Backed.mono tr'.phase (hw.memories tr' hold) (hall tr'.session).grows
    · change phase.Backed (Function.update w.dirs tr.session dir tr.session)
      rw [Function.update_self]
      exact hphase
  · intro tr' _ _ hdir
    exact (hall tr'.session).stays hdir

/-- A directory is removed of which no transaction is open. -/
theorem remove_kept {session : String} (hw : w.Backed) (hphase : phase.isOpen = false)
    (hopen : ∀ tr' ∈ w.transactions, tr'.session = session → tr'.phase.isOpen = false) :
  Kept w { w.goOn t tr phase with dirs := Function.update w.dirs session none }
  := by
  constructor
  · constructor
    · intro session'
      dsimp only
      by_cases hsess : session' = session
      · rw [hsess, Function.update_self]
        intro d hd
        cases hd
      · rw [Function.update_of_ne hsess]
        exact hw.manifests session'
    intro tr' htr'
    dsimp only
    rcases mem_or_eq_of_mem_set htr' with hold | rfl
    · by_cases hsess : tr'.session = session
      · exact Phase.backed_of_not_open (hopen tr' hold hsess)
      · rw [Function.update_of_ne hsess]
        exact hw.memories tr' hold
    · exact Phase.backed_of_not_open hphase
  intro tr' htr' hisOpen hdir
  have hsess : tr'.session ≠ session := by
    intro hsess
    rw [hopen tr' htr' hsess] at hisOpen
    cases hisOpen
  dsimp only
  rw [Function.update_of_ne hsess]
  exact hdir

variable {limits : Limits}

/-- The collection considers a directory. -/
theorem collectNext_kept {entry : Entry} {rest : List Entry} {total : ℕ} (hw : w.Backed)
    (hspares : ∀ tr' ∈ w.transactions, tr'.session = entry.session → tr'.phase.isOpen →
      keeps limits w.clock entry total) :
  Kept w (collectNext limits w t tr entry rest total)
  := by
  rw [collectNext]
  split_ifs with hkeeps
  · exact goOn_kept t _ hw True.intro
  apply remove_kept hw rfl
  intro tr' htr' hsess
  rw [← Bool.not_eq_true]
  intro hisOpen
  exact hkeeps (hspares tr' htr' hsess hisOpen)

/-- A rollback has in memory what it had. -/
theorem rollbackNext_backed (w : World H) (dir : Option (SessionDir H)) {captures : List (Capture H)}
    (rest : List (Capture H)) (h : ∀ c ∈ captures, Backed dir c.existed c.backupPath) :
  (rollbackNext w dir captures rest).1.Backed dir
  := by
  cases rest with
  | nil => exact True.intro
  | cons c rest =>
  rw [rollbackNext]
  split
  · split_ifs
    all_goals exact h
  · exact h

/-- The next call of a transaction keeps what has its objects. -/
theorem nextCall_kept (hw : w.Backed)
    (htr : w.transactions[t]? = some tr) (hspares : Spares limits w (.next t))
    (hnext : nextCall limits w t tr = some w') :
  Kept w w'
  := by
  have hphase := hw.memories tr (mem_of_getElem? htr)
  have hspares := hspares tr htr
  have hcommit {next : Option (Phase H × Option (SessionDir H))}
      (heq : next = commitNext w t (w.dirs tr.session) tr.phase)
      (h : (next.map fun next => w.advance t tr next.1 next.2) = some w') : Kept w w' := by
    obtain ⟨⟨phase', dir'⟩, hnext', rfl⟩ := Option.map_eq_some_iff.mp h
    obtain ⟨hchg, hbacked⟩ := commitNext_changes (hw.manifests tr.session) hphase
      (heq.symm.trans hnext')
    exact advance_kept hw hchg hbacked
  obtain ⟨session, phase⟩ := tr
  cases phase with
  | rollingBack captures rest =>
    cases hnext
    exact (goOn_kept t _ hw (rollbackNext_backed w _ rest hphase)).congr rfl rfl
  | settled =>
    simp only [nextCall] at hnext
    split_ifs at hnext
    · cases hnext
      exact goOn_kept t _ hw True.intro
    · cases hnext
      exact (goOn_kept t .listing hw True.intro).congr rfl rfl
  | listing =>
    cases hnext
    exact goOn_kept t _ hw True.intro
  | measuring rest entries =>
    cases rest with
    | nil =>
      cases hnext
      exact goOn_kept t _ hw True.intro
    | cons e rest => cases hnext
  | collecting entries total =>
    cases entries with
    | nil =>
      cases hnext
      exact (goOn_kept t .finished hw True.intro).congr rfl rfl
    | cons entry rest =>
      cases hnext
      exact collectNext_kept hw (hspares _ rfl)
  | _ => exact hcommit rfl hnext

/-- A look at a directory keeps what has its objects. -/
theorem measure_kept {session : String} {size : ℕ}
    {rest : List (String × Lookup)} {entries : List Entry} (hw : w.Backed)
    (hmeasure : measure w t tr session size rest entries = some w') :
  Kept w w'
  := by
  obtain ⟨e, _, rfl⟩ := Option.map_eq_some_iff.mp hmeasure
  split
  · exact goOn_kept t _ hw True.intro
  · exact goOn_kept t _ hw True.intro
  · exact (goOn_kept t .finished hw True.intro).congr rfl rfl

/-- A step in which the collection spares the open transactions keeps what has its objects. -/
theorem step_kept {a : Action H} (hw : w.Backed)
    (hspares : Spares limits w a) (hstep : step limits w a = some w') :
  Kept w w'
  := by
  cases a with
  | tick now =>
    simp only [step] at hstep
    split_ifs at hstep
    cases hstep
    exact Kept.of_same hw rfl fun tr htr => Or.inl htr
  | edit path content =>
    cases hstep
    exact Kept.of_same hw rfl fun tr htr => Or.inl htr
  | begin session paths =>
    cases hstep
    refine Kept.of_same hw rfl ?_
    intro tr htr
    rcases mem_append.mp htr with hold | hnew
    · exact Or.inl hold
    rw [mem_singleton.mp hnew]
    right
    intro c hc
    obtain ⟨path, _, rfl⟩ := mem_map.mp hc
    exact True.intro
  | capture t path =>
    obtain ⟨⟨session, phase⟩, htr, hstep⟩ := Option.bind_eq_some_iff.mp hstep
    cases phase with
    | preparing captures =>
      cases hstep
      have hphase := hw.memories _ (mem_of_getElem? htr)
      obtain ⟨hchg, hbacked⟩ := captureStep_changes w (w.dirs session) path hphase
      exact advance_kept hw hchg hbacked
    | _ => cases hstep
  | commit t stepId =>
    obtain ⟨⟨session, phase⟩, htr, hstep⟩ := Option.bind_eq_some_iff.mp hstep
    cases phase with
    | prepared captures =>
      cases hstep
      have hphase := hw.memories _ (mem_of_getElem? htr)
      apply goOn_kept t _ hw
      use hphase
      constructor
      · exact forall_mem_nil _
      · exact hphase
    | _ => cases hstep
  | rollback t =>
    obtain ⟨⟨session, phase⟩, htr, hstep⟩ := Option.bind_eq_some_iff.mp hstep
    cases phase with
    | prepared captures =>
      cases hstep
      have hphase := hw.memories _ (mem_of_getElem? htr)
      exact goOn_kept t _ hw hphase
    | _ => cases hstep
  | next t =>
    obtain ⟨tr, htr, hstep⟩ := Option.bind_eq_some_iff.mp hstep
    exact nextCall_kept hw htr hspares hstep
  | fail t =>
    obtain ⟨tr, htr, hstep⟩ := Option.bind_eq_some_iff.mp hstep
    obtain ⟨phase, hfail, rfl⟩ := Option.map_eq_some_iff.mp hstep
    have hphase := hw.memories _ (mem_of_getElem? htr)
    exact (goOn_kept t _ hw (failed_backed hphase hfail)).congr rfl rfl
  | measure t session size =>
  obtain ⟨⟨session', phase⟩, htr, hstep⟩ := Option.bind_eq_some_iff.mp hstep
  cases phase with
  | measuring rest entries => exact measure_kept hw hstep
  | _ => cases hstep

/-! ### All runs -/

theorem start_backed (files : String → Option H) :
  (World.start files).Backed
  := by
  constructor
  · intro session d hd
    cases hd
  · exact forall_mem_nil _

/-- In a run in which the collection spares the open transactions all has its objects. -/
theorem run_backed {files : String → Option H} {as : List (Action H)}
    (hspares : Guarded (step limits) (Spares limits) (World.start files) as)
    (hrun : run (step limits) (World.start files) as = some w) :
  w.Backed
  := Guarded.invariant (fun _ _ _ hs hspares hstep => (step_kept hs hspares hstep).backed)
      (start_backed files) hspares hrun

/-- In every run in which the collection spares the sessions with open transactions, every record of
a file that existed, in every manifest, has its object, and the directory of a transaction that is
prepared and not settled is never removed. -/
theorem backed_of_spares {limits : Limits} {files : String → Option H} {as : List (Action H)}
    {w : World H} (hspares : Guarded (step limits) (Spares limits) (World.start files) as)
    (hrun : run (step limits) (World.start files) as = some w) :
  (∀ session, ManifestBacked (w.dirs session)) ∧
    ∀ a w', Spares limits w a → step limits w a = some w' →
      ∀ tr ∈ w.transactions, tr.phase.unsettled → (w.dirs tr.session).isSome →
        (w'.dirs tr.session).isSome
  := by
  have hw := run_backed hspares hrun
  use hw.manifests
  intro a w' hspares hstep tr htr hunsettled
  exact (step_kept hw hspares hstep).dirs tr htr (Phase.isOpen_of_unsettled hunsettled)

/-! ### A directory removed under a transaction -/

/-- There is one file. -/
def oneFile : String → Option ℕ :=
  fun path => if path = "a" then some 1 else none

/-- A session has a backup of the file, and its transaction is prepared. Another session commits a
new file, and collects old backups. It measures this many bytes for the first session. -/
def collection (size : ℕ) : List (Action ℕ) :=
  [.begin "d" ["a"], .capture 0 "a", .capture 0 "a", .capture 0 "a", .capture 0 "a", .next 0,
    .begin "e" ["b"], .capture 1 "b", .next 1, .edit "b" (some 2), .tick 1, .commit 1 "s"] ++
    List.replicate 11 (.next 1) ++
      [.measure 1 "d" size, .measure 1 "d" size, .measure 1 "d" size, .measure 1 "e" 300,
        .measure 1 "e" 300, .next 1]

/-- The transaction of the first session is committed. -/
def commitment : List (Action ℕ) :=
  .commit 0 "s" :: List.replicate 9 (.next 0)

/-- The collection removes the oldest directory when there are too many bytes, though a transaction
of its session is prepared; when this is committed its record has no object. -/
theorem not_backed :
  (¬ ∀ (files : String → Option ℕ) (as : List (Action ℕ)) (w : World ℕ),
      run (step Limits.default) (World.start files) as = some w →
        ∀ session, ManifestBacked (w.dirs session)) ∧
    ¬ ∀ (files : String → Option ℕ) (as : List (Action ℕ)) (w : World ℕ),
        run (step Limits.default) (World.start files) as = some w →
          ∀ a w', step Limits.default w a = some w' →
            ∀ tr ∈ w.transactions, tr.phase.unsettled → (w.dirs tr.session).isSome →
              (w'.dirs tr.session).isSome
  := by
  constructor
  · intro h
    have hrun : (run (step Limits.default) (World.start oneFile)
        (collection 524288001 ++ [.next 1] ++ commitment)).any
          (fun w => !decide (ManifestBacked (w.dirs "d"))) := by
      decide +kernel
    obtain ⟨w, hw, hnot⟩ := (Option.any_eq_true _ _).mp hrun
    rw [Bool.not_eq_true', decide_eq_false_iff_not] at hnot
    exact hnot (h oneFile _ w hw "d")
  intro h
  have hrun : (run (step Limits.default) (World.start oneFile) (collection 524288001)).any
      (fun w => (step Limits.default w (.next 1)).any fun w' =>
        w.transactions.any fun tr =>
          tr.phase.unsettled && ((w.dirs tr.session).isSome && !(w'.dirs tr.session).isSome)) =
        true := by
    decide +kernel
  obtain ⟨w, hw, hstep⟩ := (Option.any_eq_true _ _).mp hrun
  obtain ⟨w', hw', hany⟩ := (Option.any_eq_true _ _).mp hstep
  obtain ⟨tr, htr, hnot⟩ := any_eq_true.mp hany
  rw [Bool.and_eq_true, Bool.and_eq_true, Bool.not_eq_true'] at hnot
  have hkept := h oneFile _ w hw (.next 1) w' hw' tr htr hnot.1 hnot.2.1
  rw [hnot.2.2] at hkept
  cases hkept

/-- With fewer bytes the collection spares the prepared transaction, which is then committed. -/
theorem collection_backed :
  ∃ w : World ℕ, run (step Limits.default) (World.start oneFile)
      (collection 300 ++ [.next 1] ++ commitment) = some w ∧
    (∀ session, ManifestBacked (w.dirs session)) ∧
      ∀ a w', Spares Limits.default w a → step Limits.default w a = some w' →
        ∀ tr ∈ w.transactions, tr.phase.unsettled → (w.dirs tr.session).isSome →
          (w'.dirs tr.session).isSome
  := by
  have hrun : (run (step Limits.default) (World.start oneFile)
      (collection 300 ++ [.next 1] ++ commitment)).isSome := by
    decide +kernel
  have hspares : Guarded (step Limits.default) (Spares Limits.default) (World.start oneFile)
      (collection 300 ++ [.next 1] ++ commitment) := by
    decide +kernel
  obtain ⟨w, hw⟩ := Option.isSome_iff_exists.mp hrun
  exact ⟨w, hw, backed_of_spares hspares hw⟩

end BackupRoot

end Storage
