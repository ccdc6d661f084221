import VolundCode.Lib.Fault
import VolundCode.Lib.Run

/-!
# Snapshot files

A store keeps its whole state in one file. To save, it writes a temporary file, removes the
backup, renames the current file to the backup and the temporary file to the current one; when
a step throws it removes the temporary file and renames the backup back. To load, it reads the
current file, or else the backup.

Every save of a run does what it should for what is loaded, however its steps fail or where the
process dies, if no save is endangered (`faithful_of_safe`): a save that throws leaves it alone,
and one that is interrupted leaves it alone or saves. A save is endangered where it renames a
stale backup over the current file, where it removes the backup while there is no current file,
and where it throws with the new file in place and cannot put the old one back.
-/

namespace Storage

open Effect Fault Run

/-! ### The files -/

/-- The bytes of the current file, the backup and the temporary file, where there is one. The
temporary file has a new name at each save, so one that is left behind is never seen again. -/
structure Directory (B : Type) where
  current : Option B
  backup : Option B
  temporary : Option B

/-- How snapshots are written and read back. -/
structure Codec (S B : Type) where
  encode : S → B
  decode : B → Option S
  /-- What is loaded where nothing has been saved. -/
  empty : S
  decode_encode : ∀ s, decode (encode s) = some s

/-- The steps of a save. -/
inductive Operation where
  | mkdir
  | openTemporary
  | writeTemporary
  | syncTemporary
  | closeTemporary
  | removeBackup
  | keepCurrent
  | beforeRename
  | replaceCurrent
  | openDirectory
  | syncDirectory
  | closeDirectory
  | removeTemporary
  | restoreBackup
deriving DecidableEq

/-- What becomes of the steps of a save, and what is in the temporary file before all of the
snapshot is. -/
structure Faults (B : Type) where
  fate : Operation → Fate
  torn : B

/-- What the stores differ in: the memory repository has a hook before the last rename, and
directories are not synced on Windows. -/
structure Store where
  hooked : Bool
  win32 : Bool

/-- The store of the scheduled tasks. -/
def taskStore (win32 : Bool) : Store where
  hooked := false
  win32 := win32

/-- The store of the memory records. -/
def localMemoryRepository (win32 : Bool) : Store where
  hooked := true
  win32 := win32

variable {S B : Type}

/-! ### Saving and loading -/

/-- The current file, if there is one, is renamed to the backup. -/
def Directory.keepCurrent (d : Directory B) : Directory B :=
  match d.current with
  | some bytes => { d with current := none, backup := some bytes }
  | none => d

/-- The temporary file is renamed to the current one. -/
def Directory.replaceCurrent (d : Directory B) : Directory B :=
  match d.temporary with
  | some bytes => { d with current := some bytes, temporary := none }
  | none => d

/-- The backup, if there is one, is renamed to the current file. -/
def Directory.restoreBackup (d : Directory B) : Directory B :=
  match d.backup with
  | some bytes => { d with current := some bytes, backup := none }
  | none => d

/-- The temporary file is removed. -/
def removeTemporary (f : Faults B) : Effect Stop (Directory B) Unit :=
  ignoring (Fault.attempt (f.fate .removeTemporary) fun d => { d with temporary := none })

/-- The snapshot is written to a temporary file. -/
def writeTemporary (f : Faults B) (bytes : B) : Effect Stop (Directory B) Unit := do
  Fault.attempt (f.fate .openTemporary) fun d => { d with temporary := some f.torn }
  catching
    (do
      Fault.attempt (f.fate .writeTemporary) fun d => { d with temporary := some bytes }
      Fault.attempt (f.fate .syncTemporary) id)
    (do
      removeTemporary f
      throw .thrown)
  Fault.attempt (f.fate .closeTemporary) id

/-- The directory is synced. -/
def syncDirectory (f : Faults B) : Effect Stop (Directory B) Unit := do
  Fault.attempt (f.fate .openDirectory) id
  ensuring (Fault.attempt (f.fate .syncDirectory) id) (Fault.attempt (f.fate .closeDirectory) id)

/-- What becomes of the hook before the last rename, which only the memory repository has. -/
def Faults.hook (store : Store) (f : Faults B) : Fate :=
  if store.hooked then f.fate .beforeRename else .done

/-- The temporary file becomes the current one. -/
def putInPlace (store : Store) (f : Faults B) : Effect Stop (Directory B) Unit := do
  Fault.attempt (f.fate .replaceCurrent) Directory.replaceCurrent
  if !store.win32 then syncDirectory f

/-- The backup makes room for the current file, and that for the temporary file. -/
def replaceFiles (store : Store) (f : Faults B) : Effect Stop (Directory B) Unit := do
  Fault.attempt (f.fate .removeBackup) fun d => { d with backup := none }
  Fault.attempt (f.fate .keepCurrent) Directory.keepCurrent
  Fault.attempt (f.hook store) id
  putInPlace store f

/-- What is done where the files could not be replaced. -/
def restoreFiles (f : Faults B) : Effect Stop (Directory B) Unit := do
  removeTemporary f
  ignoring (Fault.attempt (f.fate .restoreBackup) Directory.restoreBackup)
  throw .thrown

def saveUnlocked (store : Store) (f : Faults B) (bytes : B) : Effect Stop (Directory B) Unit := do
  Fault.attempt (f.fate .mkdir) id
  writeTemporary f bytes
  catching (replaceFiles store f) (restoreFiles f)

/-- What is loaded, unless both files are unreadable and one of them is there. -/
def loadUnlocked (codec : Codec S B) (d : Directory B) : Option S :=
  match d.current.bind codec.decode with
  | some s => some s
  | none =>
    match d.backup.bind codec.decode with
    | some s => some s
    | none => if d.current.isNone && d.backup.isNone then some codec.empty else none

/-! ### Saves that are safe -/

/-- The temporary file is written. -/
def Faults.prepares (f : Faults B) : Bool :=
  [Operation.mkdir, .openTemporary, .writeTemporary, .syncTemporary, .closeTemporary].all
    fun op => f.fate op = .done

/-- Once the backup is removed the new file comes into place. -/
def Faults.replaces (store : Store) (f : Faults B) : Bool :=
  f.fate .keepCurrent = .done && f.hook store = .done && f.fate .replaceCurrent = .done

/-- The new file is in place and its directory cannot be synced. -/
def Faults.unsynced (store : Store) (f : Faults B) : Bool :=
  !store.win32 &&
    match f.fate .openDirectory with
    | .done =>
      f.fate .syncDirectory ≠ .crashes && f.fate .closeDirectory ≠ .crashes &&
        (f.fate .syncDirectory = .fails || f.fate .closeDirectory = .fails)
    | .fails => true
    | .crashes => false

/-- The process lives through what is done where the files could not be replaced. -/
def Faults.survives (f : Faults B) : Bool :=
  f.fate .removeTemporary ≠ .crashes && f.fate .restoreBackup ≠ .crashes

/-- A save from these files with these faults does not lose what was saved before: a backup that
cannot be removed is not renamed over a current file; the backup is not removed where there is
no current file unless the new one comes into place; and a save that throws with the new file in
place can put the old one back. -/
def safe (store : Store) (d : Directory B) (f : Faults B) : Bool :=
  !f.prepares ||
    match f.fate .removeBackup with
    | .crashes => true
    | .fails =>
      d.current.isNone || d.backup.isNone || !f.survives || f.fate .restoreBackup = .fails
    | .done =>
      if f.replaces store then
        !f.unsynced store || !f.survives || (d.current.isSome && f.fate .restoreBackup = .done)
      else d.current.isSome || d.backup.isNone

/-- The files that are there can be read. -/
def Readable (codec : Codec S B) (d : Directory B) : Prop :=
  (∀ bytes ∈ d.current, ∃ s, codec.decode bytes = some s) ∧
    ∀ bytes ∈ d.backup, ∃ s, codec.decode bytes = some s

/-- What a save does to what is loaded: once it has returned the snapshot is loaded; one that
throws leaves alone what is loaded; one that is interrupted does either. -/
def Faithful (codec : Codec S B) (before after : Directory B) (s : S) :
    Except Stop Unit → Prop
  | .ok _ => loadUnlocked codec after = some s
  | .error .thrown => loadUnlocked codec after = loadUnlocked codec before
  | .error .crashed =>
    loadUnlocked codec after = loadUnlocked codec before ∨ loadUnlocked codec after = some s

/-! ### What the steps of a save do -/

variable {codec : Codec S B} {store : Store} {f : Faults B} {d : Directory B} {bytes : B}

/-- Writing the temporary file leaves the other files alone, and ends with all of the snapshot in
it. -/
theorem writeTemporary_wp :
  wp (writeTemporary f bytes)
    (fun _ t => t = { d with temporary := some bytes } ∧ (f.fate .mkdir = .done → f.prepares))
    (fun _ t => t.current = d.current ∧ t.backup = d.backup) d
  := by
  simp only [writeTemporary, removeTemporary, wp_bind, wp_attempt, wp_catching, wp_ignoring,
    wp_throw, Faults.prepares]
  cases hopen : f.fate .openTemporary with
  | done =>
    cases hwrite : f.fate .writeTemporary with
    | done =>
      cases hsync : f.fate .syncTemporary with
      | done =>
        cases hclose : f.fate .closeTemporary with
        | done => simp [hopen, hwrite, hsync, hclose]
        | _ => simp
      | _ => cases f.fate .removeTemporary <;> simp
    | _ => cases f.fate .removeTemporary <;> simp
  | _ => simp

/-- Where the files could not be replaced, the backup is renamed back, unless that fails or the
process dies. -/
theorem restoreFiles_wp {E : Stop → Option B → Option B → Prop}
    (hdone : f.survives → f.fate .restoreBackup = .done → E .thrown (d.backup.or d.current) none)
    (hfails : f.survives → f.fate .restoreBackup = .fails → E .thrown d.current d.backup)
    (hcrashes : f.survives = false → E .crashed d.current d.backup) :
  wp (restoreFiles f) (fun _ _ => False) (fun e t => E e t.current t.backup) d
  := by
  have hrename (hremove : f.fate .removeTemporary ≠ .crashes) (t : Directory B)
      (hcur : t.current = d.current) (hback : t.backup = d.backup) :
      wp (ignoring (Fault.attempt (f.fate .restoreBackup) Directory.restoreBackup))
        (fun _ t => E .thrown t.current t.backup) (fun e t => E e t.current t.backup) t := by
    rw [wp_ignoring, wp_attempt]
    cases h : f.fate .restoreBackup with
    | done =>
      have hres := hdone (by simp [Faults.survives, hremove, h]) h
      cases hb : d.backup with
      | none => simpa [Directory.restoreBackup, hback, hb, hcur] using hres
      | some bytes => simpa [Directory.restoreBackup, hback, hb] using hres
    | fails =>
      have hkept := hfails (by simp [Faults.survives, hremove, h]) h
      simpa [hcur, hback] using hkept
    | crashes =>
      have hkept := hcrashes (by simp [Faults.survives, h])
      simpa [hcur, hback] using hkept
  rw [restoreFiles, removeTemporary, wp_bind, wp_ignoring, wp_attempt]
  simp only [wp_bind]
  cases hremove : f.fate .removeTemporary with
  | done => exact hrename (by simp [hremove]) { d with temporary := none } rfl rfl
  | fails => exact hrename (by simp [hremove]) d rfl rfl
  | crashes => exact hcrashes (by simp [Faults.survives, hremove])

/-- Syncing the directory changes no file. -/
theorem syncDirectory_wp (hwin32 : store.win32 = false) :
  wp (syncDirectory f) (fun _ t => t = d)
    (fun e t => t = d ∧ (e = .thrown → f.unsynced store)) d
  := by
  simp only [syncDirectory, ensuring, wp_bind, wp_attempt, wp_catching, wp_throw, wp_pure,
    Faults.unsynced, hwin32]
  cases hopen : f.fate .openDirectory with
  | done =>
    cases hsync : f.fate .syncDirectory with
    | crashes => simp
    | _ => cases hclose : f.fate .closeDirectory <;> simp
  | _ => simp

variable {backup : Option B}

/-- The temporary file comes into place, or stays where it is. -/
theorem putInPlace_wp :
  wp (putInPlace store f) (fun _ t => t = ⟨some bytes, backup, none⟩)
    (fun e t => (t = ⟨none, backup, some bytes⟩ ∧ f.fate .replaceCurrent ≠ .done) ∨
      (t = ⟨some bytes, backup, none⟩ ∧ f.fate .replaceCurrent = .done ∧
        (e = .thrown → f.unsynced store)))
    ⟨none, backup, some bytes⟩
  := by
  rw [putInPlace, wp_bind, wp_attempt]
  cases f.fate .replaceCurrent with
  | done =>
    cases hwin32 : store.win32 with
    | true => simp [Directory.replaceCurrent]
    | false =>
    apply wp_mono (syncDirectory_wp hwin32)
    · intro _ t ht
      apply ht
    · intro e t ht
      exact Or.inr ⟨ht.1, rfl, ht.2⟩
  | _ => simp

/-! ### What is loaded -/

variable {s : S}

/-- What is loaded from a current file that can be read. -/
theorem loadUnlocked_current {current temporary : Option B}
    (h : current.bind codec.decode = some s) :
  loadUnlocked codec ⟨current, backup, temporary⟩ = some s
  := by
  rw [loadUnlocked, h]

/-- A file that is there by itself is loaded, whether as the current one or as the backup. -/
theorem loadUnlocked_alone (file temporary temporary' : Option B) :
  loadUnlocked codec ⟨none, file, temporary⟩ = loadUnlocked codec ⟨file, none, temporary'⟩
  := by
  simp only [loadUnlocked, Option.bind_none]
  cases file.bind codec.decode with
  | none => simp
  | some s => rfl

/-- The current file decides what is loaded, unless there is none and there is a backup. -/
theorem loadUnlocked_kept {current : Option B} (temporary temporary' : Option B)
    (hd : ∀ bytes ∈ current, ∃ s, codec.decode bytes = some s)
    (hkept : current = none → backup = none) :
  loadUnlocked codec ⟨current, none, temporary⟩ = loadUnlocked codec ⟨current, backup, temporary'⟩
  := by
  cases current with
  | none => rw [hkept rfl]; rfl
  | some bytes =>
    obtain ⟨s, hs⟩ := hd bytes rfl
    have hload : (some bytes).bind codec.decode = some s := hs
    rw [loadUnlocked_current hload, loadUnlocked_current hload]

/-! ### A save that is safe -/

/-- What the files may be after a save. -/
def Settled (codec : Codec S B) (before : Directory B) (s : S) (result : Except Stop Unit)
    (current backup : Option B) : Prop :=
  Readable codec ⟨current, backup, none⟩ ∧ Faithful codec before ⟨current, backup, none⟩ s result

/-- Files that load what was loaded before are what a save that does not return may leave. -/
theorem Settled.unchanged {e : Stop} {current : Option B}
    (hread : Readable codec ⟨current, backup, none⟩)
    (hload : loadUnlocked codec ⟨current, backup, none⟩ = loadUnlocked codec d) :
  Settled codec d s (.error e) current backup
  := by
  use hread
  cases e with
  | thrown => apply hload
  | crashed => left; apply hload

/-- With the new file in place the snapshot is loaded. -/
theorem readable_replaced
    (hback : ∀ bytes ∈ backup, ∃ s, codec.decode bytes = some s) :
  Readable codec ⟨some (codec.encode s), backup, none⟩ ∧
    loadUnlocked codec ⟨some (codec.encode s), backup, none⟩ = some s
  := by
  constructor
  · constructor
    · intro bytes hbytes
      cases hbytes
      use s, codec.decode_encode s
    · apply hback
  · have hload : (some (codec.encode s)).bind codec.decode = some s := codec.decode_encode s
    apply loadUnlocked_current hload

/-- The computation leaves the files as a save of `s` may leave them. -/
abbrev Settles (codec : Codec S B) (before : Directory B) (s : S)
    (x : Effect Stop (Directory B) Unit) (d : Directory B) : Prop :=
  wp x (fun _ t => Settled codec before s (.ok ()) t.current t.backup)
    (fun e t => Settled codec before s (.error e) t.current t.backup) d

/-- What the files may be where the steps that replace them stop: what is done then, if they have
thrown, leaves the files as a save may leave them. -/
def Stopped (codec : Codec S B) (before : Directory B) (s : S) (f : Faults B) (e : Stop)
    (d : Directory B) : Prop :=
  match e with
  | .thrown => Settles codec before s (restoreFiles f) d
  | .crashed => Settled codec before s (.error .crashed) d.current d.backup

section Replacing

variable {before : Directory B} {s : S} {current backup temporary : Option B}

/-- Where the files may stop as they are, and may also be put back. -/
theorem Stopped.of_settled {e : Stop} (hset : ∀ e, Settled codec before s (.error e) d.current
      d.backup)
    (hres : f.survives → f.fate .restoreBackup = .done →
      Settled codec before s (.error .thrown) (d.backup.or d.current) none) :
  Stopped codec before s f e d
  := by
  cases e with
  | crashed => apply hset
  | thrown =>
  apply wp_mono (restoreFiles_wp (E := fun e => Settled codec before s (.error e)) hres _ _)
  · intro _ _ h
    exact h.elim
  · intro _ _ h
    apply h
  · intro _ _
    apply hset
  · intro _
    apply hset

/-- Once the backup is removed the current file can stop where it is, by itself. -/
theorem stopped_current (hd : Readable codec before)
    (hkept : before.current = none → before.backup = none) (e : Stop) :
  Stopped codec before s f e ⟨before.current, none, temporary⟩
  := by
  have hset (e : Stop) : Settled codec before s (.error e) before.current none :=
    Settled.unchanged ⟨hd.1, by simp⟩ (loadUnlocked_kept none before.temporary hd.1 hkept)
  apply Stopped.of_settled hset
  intro _ _
  simpa using hset .thrown

/-- And so it can as the backup. -/
theorem stopped_backup (hd : Readable codec before)
    (hkept : before.current = none → before.backup = none) (e : Stop) :
  Stopped codec before s f e ⟨none, before.current, temporary⟩
  := by
  have hload : loadUnlocked codec ⟨before.current, none, none⟩ = loadUnlocked codec before :=
    loadUnlocked_kept none before.temporary hd.1 hkept
  apply Stopped.of_settled
  · intro e
    apply Settled.unchanged ⟨by simp, hd.1⟩
    rw [loadUnlocked_alone before.current none none, hload]
  · intro _ _
    simpa using Settled.unchanged (e := .thrown) ⟨hd.1, by simp⟩ hload

/-- With the new file in place a save that cannot sync the directory puts the old one back. -/
theorem stopped_replaced (hd : Readable codec before) {e : Stop}
    (hsafe : e = .thrown → f.survives = false ∨
      (before.current.isSome ∧ f.fate .restoreBackup = .done)) :
  Stopped codec before s f e ⟨some (codec.encode s), before.current, temporary⟩
  := by
  obtain ⟨hread, hload⟩ := readable_replaced (s := s) hd.1
  have hcrash : Settled codec before s (.error .crashed) (some (codec.encode s))
      before.current := ⟨hread, Or.inr hload⟩
  cases e with
  | crashed => apply hcrash
  | thrown =>
  apply wp_mono (restoreFiles_wp (E := fun e => Settled codec before s (.error e)) _ _ _)
  · intro _ _ h
    exact h.elim
  · intro _ _ h
    apply h
  · intro hsurvives _
    have hcur := (hsafe rfl).resolve_left (by simp [hsurvives])
    obtain ⟨bytes, hbytes⟩ := Option.isSome_iff_exists.mp hcur.1
    have hkept : before.current = none → before.backup = none := by simp [hbytes]
    have hold : before.current.or (some (codec.encode s)) = before.current := by
      rw [hbytes]
      rfl
    change Settled codec before s (.error .thrown) (before.current.or (some (codec.encode s))) none
    rw [hold]
    apply Settled.unchanged ⟨hd.1, by simp⟩
    apply loadUnlocked_kept none before.temporary hd.1 hkept
  · intro hsurvives hfails
    have hdone := ((hsafe rfl).resolve_left (by simp [hsurvives])).2
    simp [hfails] at hdone
  · intro _
    apply hcrash

/-- The files are replaced, or what is loaded stays as it is. -/
theorem replaceFiles_settles (hd : Readable codec before) (hsafe : safe store before f)
    (hprep : f.prepares) (htemp : temporary = some (codec.encode s)) :
  Settles codec before s (catching (replaceFiles store f) (restoreFiles f))
    ⟨before.current, before.backup, temporary⟩
  := by
  have hsame (e : Stop) : Settled codec before s (.error e) before.current before.backup := by
    apply Settled.unchanged hd
    rfl
  rw [Settles, wp_catching]
  change wp _ _ (Stopped codec before s f) _
  simp only [safe, hprep, Bool.not_true, Bool.false_or] at hsafe
  rw [replaceFiles, wp_bind, wp_attempt]
  cases hremove : f.fate .removeBackup with
  | crashes => exact hsame .crashed
  | fails =>
    rw [hremove] at hsafe
    apply Stopped.of_settled (d := ⟨before.current, before.backup, temporary⟩) hsame
    intro hsurvives hres
    have hfiles : before.current = none ∨ before.backup = none := by
      simpa [hsurvives, hres] using hsafe
    change Settled codec before s (.error .thrown) (before.backup.or before.current) none
    rcases hfiles with hcur | hback
    · rw [hcur, Option.or_none]
      apply Settled.unchanged ⟨hd.2, by simp⟩
      rw [← loadUnlocked_alone before.backup none none, ← hcur]
      rfl
    rw [hback, Option.none_or]
    have hcur := hsame .thrown
    rw [hback] at hcur
    apply hcur
  | done =>
  simp only [hremove] at hsafe
  have hkept (hreplaces : f.replaces store = false) :
      before.current = none → before.backup = none := by
    intro hcur
    simpa [hreplaces, hcur] using hsafe
  rw [wp_bind, wp_attempt]
  cases hkeep : f.fate .keepCurrent with
  | crashes => exact stopped_current hd (hkept (by simp [Faults.replaces, hkeep])) .crashed
  | fails => exact stopped_current hd (hkept (by simp [Faults.replaces, hkeep])) .thrown
  | done =>
  have hstate : (⟨before.current, none, temporary⟩ : Directory B).keepCurrent =
      ⟨none, before.current, some (codec.encode s)⟩ := by
    rw [htemp]
    cases before.current <;> rfl
  simp only [hstate, wp_bind, wp_attempt]
  cases hhook : f.hook store with
  | crashes => exact stopped_backup hd (hkept (by simp [Faults.replaces, hhook])) .crashed
  | fails => exact stopped_backup hd (hkept (by simp [Faults.replaces, hhook])) .thrown
  | done =>
  obtain ⟨hread, hload⟩ := readable_replaced (s := s) hd.1
  apply wp_mono putInPlace_wp
  · rintro _ _ rfl
    exact ⟨hread, hload⟩
  rintro e _ (⟨rfl, hrepl⟩ | ⟨rfl, hrepl, hthrow⟩)
  · apply stopped_backup hd (hkept (by simp [Faults.replaces, hrepl]))
  apply stopped_replaced hd
  intro he
  have hreplaces : f.replaces store := by
    simp [Faults.replaces, hkeep, hhook, hrepl]
  simpa [hreplaces, hthrow he] using hsafe

end Replacing

/-- A safe save does what it should for what is loaded, and leaves files that can be read. -/
theorem saveUnlocked_settles (hd : Readable codec d) (hsafe : safe store d f) :
  Settles codec d s (saveUnlocked store f (codec.encode s)) d
  := by
  have hsame (e : Stop) : Settled codec d s (.error e) d.current d.backup := by
    apply Settled.unchanged hd
    rfl
  rw [Settles, saveUnlocked, wp_bind, wp_attempt]
  cases hmkdir : f.fate .mkdir with
  | crashes | fails => apply hsame
  | done =>
  rw [wp_bind]
  apply wp_mono writeTemporary_wp
  · rintro _ _ ⟨rfl, hprep⟩
    apply replaceFiles_settles hd hsafe (hprep hmkdir) rfl
  · intro e t ht
    rw [ht.1, ht.2]
    apply hsame

/-! ### What holds of every file -/

/-- All steps of the save are done. -/
def Faults.saves (store : Store) (f : Faults B) : Bool :=
  f.prepares && f.fate .removeBackup = .done && f.replaces store &&
    (store.win32 || [Operation.openDirectory, .syncDirectory, .closeDirectory].all
      fun op => f.fate op = .done)

/-- What holds of the current file and the backup. -/
def Directory.All (P : B → Prop) (d : Directory B) : Prop :=
  (∀ bytes ∈ d.current, P bytes) ∧ ∀ bytes ∈ d.backup, P bytes

section Everywhere

variable {P : B → Prop}

theorem Directory.All.keepCurrent (h : d.All P) :
  d.keepCurrent.All P
  := by
  rw [Directory.keepCurrent]
  cases hcur : d.current with
  | none => simpa [hcur] using h
  | some bytes => exact ⟨by simp, by simpa [hcur] using h.1⟩

/-- What holds of the current file and the backup holds of what is put back. -/
theorem restoreFiles_all (h : d.All P) :
  wp (restoreFiles f) (fun _ _ => False) (fun _ t => t.All P) d
  := by
  apply restoreFiles_wp (E := fun _ current backup =>
    (∀ bytes ∈ current, P bytes) ∧ ∀ bytes ∈ backup, P bytes)
  · intro _ _
    use ?_, by simp
    cases hback : d.backup with
    | none => simpa [hback] using h.1
    | some bytes => simpa [hback] using h.2
  · intro _ _
    apply h
  · intro _
    apply h

/-- Syncing the directory is done when all of its steps are. -/
theorem syncDirectory_done :
  wp (syncDirectory f)
    (fun _ t => t = d ∧ [Operation.openDirectory, .syncDirectory, .closeDirectory].all
      (fun op => f.fate op = .done))
    (fun _ t => t = d) d
  := by
  simp only [syncDirectory, ensuring, wp_bind, wp_attempt, wp_catching, wp_throw, wp_pure]
  cases hopen : f.fate .openDirectory with
  | done =>
    cases hsync : f.fate .syncDirectory with
    | crashes => simp
    | _ => cases hclose : f.fate .closeDirectory <;> simp [hopen, hsync, hclose]
  | _ => simp

/-- Replacing the files leaves files in which what holds of all of them holds of the new one
too. -/
theorem replaceFiles_all (h : d.All P) (htemp : d.temporary = some bytes) (hbytes : P bytes)
    (hprep : f.prepares) :
  wp (replaceFiles store f)
    (fun _ t => f.saves store ∧ t.current = some bytes ∧ t.All P) (fun _ t => t.All P) d
  := by
  rw [replaceFiles, wp_bind, wp_attempt]
  cases hremove : f.fate .removeBackup with
  | crashes | fails => apply h
  | done =>
  have hrem : ({ d with backup := none } : Directory B).All P := ⟨h.1, by simp⟩
  simp only [wp_bind, wp_attempt]
  cases hkeep : f.fate .keepCurrent with
  | crashes | fails => apply hrem
  | done =>
  have hkept := hrem.keepCurrent
  have hstill : ({ d with backup := none } : Directory B).keepCurrent.temporary = some bytes := by
    rw [Directory.keepCurrent]
    cases d.current <;> simp [htemp]
  generalize ({ d with backup := none } : Directory B).keepCurrent = t at hkept hstill
  cases hhook : f.hook store with
  | crashes | fails => apply hkept
  | done =>
  simp only [putInPlace, wp_bind, wp_attempt]
  cases hrepl : f.fate .replaceCurrent with
  | crashes | fails => apply hkept
  | done =>
  have hplaced : t.replaceCurrent = { t with current := some bytes, temporary := none } := by
    rw [Directory.replaceCurrent, hstill]
  have hall : t.replaceCurrent.All P := by
    rw [hplaced]
    exact ⟨by simpa using hbytes, hkept.2⟩
  have hcur : t.replaceCurrent.current = some bytes := by rw [hplaced]
  have hsaves (h : (store.win32 || [Operation.openDirectory, .syncDirectory,
      .closeDirectory].all fun op => f.fate op = .done)) :
      f.saves store := by
    simp only [Faults.saves, Faults.replaces, hprep, hremove, hkeep, hhook, hrepl, h]
    rfl
  cases hwin32 : store.win32 with
  | true => exact ⟨hsaves (by simp [hwin32]), hcur, hall⟩
  | false =>
  apply wp_mono syncDirectory_done
  · rintro _ _ ⟨rfl, hdone⟩
    exact ⟨hsaves (by rw [hdone, Bool.or_true]), hcur, hall⟩
  · rintro _ _ rfl
    apply hall

/-- A save leaves files in which what holds of all of them holds of the new one too; where it
returns all of its steps are done, and the new one is in place. -/
theorem saveUnlocked_all (h : d.All P) (hbytes : P bytes) :
  wp (saveUnlocked store f bytes)
    (fun _ t => f.saves store ∧ t.current = some bytes ∧ t.All P) (fun _ t => t.All P) d
  := by
  rw [saveUnlocked, wp_bind, wp_attempt]
  cases hmkdir : f.fate .mkdir with
  | crashes | fails => apply h
  | done =>
  rw [wp_bind]
  apply wp_mono writeTemporary_wp
  · rintro _ _ ⟨rfl, hprep⟩
    rw [wp_catching]
    have hfiles : ({ d with temporary := some bytes } : Directory B).All P := h
    apply wp_mono (replaceFiles_all hfiles rfl hbytes (hprep hmkdir))
    · intro _ _ ht
      apply ht
    intro e t ht
    cases e with
    | crashed => apply ht
    | thrown =>
    apply wp_mono (restoreFiles_all ht)
    · intro _ _ hfalse
      exact hfalse.elim
    · intro _ _ ht
      apply ht
  · intro e t ht
    rw [Directory.All, ht.1, ht.2]
    apply h

end Everywhere

/-! ### Runs of saves -/

/-- A save of a snapshot, with what becomes of its steps. -/
structure Save (S B : Type) where
  snapshot : S
  faults : Faults B

/-- How a save ends, and the files it leaves. -/
def save (store : Store) (codec : Codec S B) (d : Directory B) (a : Save S B) :
    Except Stop Unit × Directory B :=
  match saveUnlocked store a.faults (codec.encode a.snapshot) d with
  | .ok _ t => (.ok (), t)
  | .error e t => (.error e, t)

/-- The files one save after another leaves. -/
def saves (store : Store) (codec : Codec S B) (d : Directory B) (a : Save S B) :
    Option (Directory B) :=
  some (save store codec d a).2

/-- A directory in which nothing has been saved. -/
def Directory.new : Directory B :=
  ⟨none, none, none⟩

/-- What may be loaded after saves from a directory from which one of `held` is loaded: the
snapshot of the last save that returned, or one whose save was interrupted since. -/
def acceptable (store : Store) (codec : Codec S B) : List S → Directory B → List (Save S B) → List S
  | held, _, [] => held
  | held, d, a :: as =>
    match (save store codec d a).1 with
    | .ok _ => acceptable store codec [a.snapshot] (save store codec d a).2 as
    | .error .thrown => acceptable store codec held (save store codec d a).2 as
    | .error .crashed => acceptable store codec (held ++ [a.snapshot]) (save store codec d a).2 as

/-- A safe save does what it should for what is loaded, and leaves files that can be read. -/
theorem save_of_safe {a : Save S B} (hd : Readable codec d) (hsafe : safe store d a.faults) :
  Readable codec (save store codec d a).2 ∧
    Faithful codec d (save store codec d a).2 a.snapshot (save store codec d a).1
  := by
  have h := saveUnlocked_settles (s := a.snapshot) hd hsafe
  rw [save]
  cases hsave : saveUnlocked store a.faults (codec.encode a.snapshot) d with
  | ok u t =>
    have hset := wp_ok h hsave
    exact hset
  | error e t =>
    have hset := wp_error h hsave
    exact hset

/-- In a directory whose files can be read, what is loaded after safe saves is acceptable. -/
theorem load_acceptable {held : List S} {actions : List (Save S B)} {t : Directory B}
    (hd : Readable codec d) (hheld : ∃ s ∈ held, loadUnlocked codec d = some s)
    (hok : Guarded (saves store codec) (fun d a => safe store d a.faults) d actions)
    (hrun : run (saves store codec) d actions = some t) :
  ∃ s ∈ acceptable store codec held d actions, loadUnlocked codec t = some s
  := by
  induction actions generalizing d held with
  | nil =>
    cases hrun
    apply hheld
  | cons a as ih =>
  obtain ⟨hread, hfaithful⟩ := save_of_safe hd hok.1
  have hrest := hok.tail rfl
  rw [acceptable]
  cases hsave : (save store codec d a).1 with
  | ok u =>
    rw [hsave] at hfaithful
    exact ih hread ⟨a.snapshot, List.mem_singleton_self _, hfaithful⟩ hrest hrun
  | error e =>
  rw [hsave] at hfaithful
  obtain ⟨s, hs, hload⟩ := hheld
  cases e with
  | thrown => exact ih hread ⟨s, hs, hfaithful.trans hload⟩ hrest hrun
  | crashed =>
  apply ih hread _ hrest hrun
  rcases hfaithful with hsame | hnew
  · exact ⟨s, List.mem_append_left _ hs, hsame.trans hload⟩
  · exact ⟨a.snapshot, List.mem_append_right _ (List.mem_singleton_self _), hnew⟩

/-- Numbers as snapshots that are their own bytes. -/
def sampleCodec : Codec ℕ ℕ where
  encode s := s
  decode := some
  empty := 0
  decode_encode _ := rfl

/-- A save whose step `op` has the fate `fate`. -/
def sampleSave (snapshot : ℕ) (op : Operation) (fate : Fate) : Save ℕ ℕ where
  snapshot := snapshot
  faults :=
    { fate := fun o => if o = op then fate else .done
      torn := 0 }

end Storage
