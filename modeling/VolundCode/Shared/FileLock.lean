import VolundCode.Lib.Run
import VolundCode.Lib.Ecma

/-!
# The file lock

`acquireFileLock` takes a lock by creating a file that must not exist yet and writing its
process id into it; the release closes the handle and removes the file. A call that finds
the file reads the process id, and when no such process runs and the file is old enough it
removes the file and tries again.

Each step of the model is one file operation of one call, so calls of any number of
processes interleave freely and a process can crash between any two of them.

The lock excludes in every run in which a call that judged a file stale does not remove a
file that was put in its place by a call that is still live (`excludes_of_undisturbed`).
Reading, judging and removing are separate steps, so such runs exist, and two calls can
hold the lock at once (`not_excludes`).
-/

namespace FileLock

open Run Ecma List

/-! ### The lock file -/

/-- A file must be this old to be stale, in milliseconds. -/
def REAP_AGE_MS : ℤ := 60000

/-- How often a call tries before it gives up. -/
def MAX_ATTEMPTS : ℕ := 4

/-- The processes and calls of a system: the process that makes a call, the process id of
a process, and the owner a call names. -/
structure World where
  procOf : ℕ → ℕ
  pidOf : ℕ → ℕ
  owner : ℕ → String

/-- What call `c` writes into the lock file. -/
def World.record (W : World) (c : ℕ) : String :=
  toString (W.pidOf (W.procOf c)) ++ " " ++ W.owner c ++ "\n"

/-- The digits the text starts with after white space, as `/^\s*(\d+)/` finds them. -/
def pidText (holder : String) : Option (List Char) :=
  match (holder.toList.dropWhile isSpace).takeWhile Char.isDigit with
  | [] => none
  | digits => some digits

/-- The process id of the holder, if the text starts with a positive safe integer. -/
def holderPid (holder : String) : Option ℕ :=
  match pidText holder with
  | none => none
  | some digits =>
    let pid := Nat.ofDigitChars 10 digits 0
    if pid ≤ 2 ^ 53 - 1 ∧ 0 < pid then some pid else none

/-- The message of a call that gave up. -/
def conflictMessage (holder : String) : String :=
  let pid :=
    match pidText holder with
    | none => ""
    | some digits => " (pid " ++ String.ofList digits ++ ")"
  "file locked by another volund session" ++ pid ++ ", retry later"

/-! ### Calls -/

/-- The lock file: the call that created it, if it was created during the run, its text and
when it was last written. -/
structure File where
  creator : Option ℕ
  text : String
  mtime : ℤ
  deriving DecidableEq, Repr

/-- Where a call stands. A call that found the file remembers which file it read; no step
depends on that, only statements about runs do. -/
inductive Pc where
  | idle
  | opening (attempt reapsLeft : ℕ)
  | created
  | holding
  | closing
  | released
  | reading (attempt reapsLeft : ℕ)
  | probing (attempt reapsLeft : ℕ) (pid : ℕ) (seen : Option ℕ)
  | aging (attempt reapsLeft : ℕ) (seen : Option ℕ)
  | removing (attempt reapsLeft : ℕ) (seen : Option ℕ)
  | delaying (attempt reapsLeft : ℕ)
  | refusing
  | refused (message : String)
  | threw
  deriving DecidableEq, Repr

/-- The lock file, the processes that run and those that crashed, the clock, and where each
call stands. -/
structure State where
  file : Option File
  live : List ℕ
  crashed : List ℕ
  now : ℤ
  pc : ℕ → Pc

/-- The operations of a call. `fails` is an operation the system refuses for another reason
than that the file exists or does not exist. -/
inductive Op where
  | acquire
  | openExclusive
  | writeOwner
  | readHolder
  | probe
  | stat
  | remove
  | delay
  | readConflict
  | close
  | unlink
  | fails
  deriving DecidableEq, Repr

/-- What can happen: an operation of a call, a process crashes or starts, the clock is
set. -/
inductive Action where
  | call (c : ℕ) (op : Op)
  | crash (p : ℕ)
  | spawn (p : ℕ)
  | clock (t : ℤ)
  deriving DecidableEq, Repr

/-- The state with call `c` standing at `p`. -/
def State.goto (s : State) (c : ℕ) (p : Pc) : State :=
  { s with pc := Function.update s.pc c p }

/-- Where a call goes on whose attempt failed and which removed no stale file. -/
def retry (attempt reapsLeft : ℕ) : Pc :=
  if attempt = MAX_ATTEMPTS - 1 then .refusing else .delaying (attempt + 1) reapsLeft

/-- An operation of call `c`. -/
def callStep (W : World) (s : State) (c : ℕ) : Op → Option State
  | .acquire =>
    match s.pc c with
    | .idle => some (s.goto c (.opening 0 2))
    | _ => none
  | .openExclusive =>
    match s.pc c with
    | .opening attempt reapsLeft =>
      match s.file with
      | none => some { s.goto c .created with file := some ⟨some c, "", s.now⟩ }
      | some _ =>
        if reapsLeft > 0 then some (s.goto c (.reading attempt reapsLeft))
        else some (s.goto c (retry attempt reapsLeft))
    | _ => none
  | .writeOwner =>
    match s.pc c with
    | .created =>
      match s.file with
      | none => some (s.goto c .holding)
      | some f =>
        if f.creator = some c then
          some { s.goto c .holding with file := some ⟨some c, W.record c, s.now⟩ }
        else some (s.goto c .holding)
    | _ => none
  | .readHolder =>
    match s.pc c with
    | .reading attempt reapsLeft =>
      match s.file with
      | none => some (s.goto c (retry attempt reapsLeft))
      | some f =>
        match holderPid f.text with
        | none => some (s.goto c (retry attempt reapsLeft))
        | some pid => some (s.goto c (.probing attempt reapsLeft pid f.creator))
    | _ => none
  | .probe =>
    match s.pc c with
    | .probing attempt reapsLeft pid seen =>
      if ∃ p ∈ s.live, W.pidOf p = pid then some (s.goto c (retry attempt reapsLeft))
      else some (s.goto c (.aging attempt reapsLeft seen))
    | _ => none
  | .stat =>
    match s.pc c with
    | .aging attempt reapsLeft seen =>
      match s.file with
      | none => some (s.goto c (retry attempt reapsLeft))
      | some f =>
        if s.now - f.mtime < REAP_AGE_MS then some (s.goto c (retry attempt reapsLeft))
        else some (s.goto c (.removing attempt reapsLeft seen))
    | _ => none
  | .remove =>
    match s.pc c with
    | .removing attempt reapsLeft _ =>
      some { s.goto c (.opening attempt (reapsLeft - 1)) with file := none }
    | _ => none
  | .delay =>
    match s.pc c with
    | .delaying attempt reapsLeft => some (s.goto c (.opening attempt reapsLeft))
    | _ => none
  | .readConflict =>
    match s.pc c with
    | .refusing =>
      some (s.goto c (.refused (conflictMessage ((s.file.map File.text).getD ""))))
    | _ => none
  | .close =>
    match s.pc c with
    | .holding => some (s.goto c .closing)
    | _ => none
  | .unlink =>
    match s.pc c with
    | .closing => some { s.goto c .released with file := none }
    | _ => none
  | .fails =>
    match s.pc c with
    | .opening _ _ | .created | .holding | .closing | .removing _ _ _ => some (s.goto c .threw)
    | .reading attempt reapsLeft | .aging attempt reapsLeft _ =>
      some (s.goto c (retry attempt reapsLeft))
    | .refusing => some (s.goto c (.refused (conflictMessage "")))
    | _ => none

/-- The step of the system. Only calls of processes that run make a step, and a process that
crashed never runs again. -/
def step (W : World) (s : State) : Action → Option State
  | .call c op => if W.procOf c ∈ s.live then callStep W s c op else none
  | .crash p =>
    if p ∈ s.live then
      some { s with live := s.live.filter (· ≠ p), crashed := p :: s.crashed }
    else none
  | .spawn p =>
    if p ∉ s.live ∧ p ∉ s.crashed then some { s with live := p :: s.live } else none
  | .clock t => some { s with now := t }

/-- No call has been made, and the lock file, if there is one, is left over from before. -/
structure Initial (s : State) : Prop where
  idle : ∀ c, s.pc c = .idle
  leftover : ∀ f, s.file = some f → f.creator = none
  apart : ∀ p ∈ s.live, p ∉ s.crashed

/-! ### Exclusion -/

/-- A call that created the file and has neither removed it nor failed. -/
def Pc.Owns (p : Pc) : Prop :=
  p = .created ∨ p = .holding ∨ p = .closing

instance (p : Pc) : Decidable p.Owns :=
  inferInstanceAs (Decidable (_ ∨ _ ∨ _))

/-- Call `c` of a live process is between a successful acquire and the end of its release. -/
def Holds (W : World) (s : State) (c : ℕ) : Prop :=
  W.procOf c ∈ s.live ∧ (s.pc c = .holding ∨ s.pc c = .closing)

/-- At most one live call holds the lock, and the file a release is about to remove, if there
is one, is the file the call created. -/
structure Excludes (W : World) (s : State) : Prop where
  exclusive : ∀ c d, Holds W s c → Holds W s d → c = d
  own : ∀ c f, W.procOf c ∈ s.live → s.pc c = .closing → s.file = some f → f.creator = some c

/-- Call `c` is live and created the lock file of the state, which it has not removed. -/
def Owned (W : World) (s : State) (c : ℕ) : Prop :=
  W.procOf c ∈ s.live ∧ (s.pc c).Owns

instance (W : World) (s : State) (c : ℕ) : Decidable (Owned W s c) :=
  inferInstanceAs (Decidable (_ ∧ _))

/-- When a call removes a file it judged stale, the file on disk is still the one it read, or
at least is not the file of a live call. -/
def Undisturbed (W : World) (s : State) : Action → Prop
  | .call c .remove =>
    match s.pc c, s.file with
    | .removing _ _ seen, some f => f.creator = seen ∨ ∀ d ∈ f.creator, ¬ Owned W s d
    | _, _ => True
  | _ => True

instance (W : World) (s : State) (a : Action) : Decidable (Undisturbed W s a) := by
  unfold Undisturbed
  split
  · split
    all_goals infer_instance
  · infer_instance

/-! ### What a step does -/

/-- A place that neither owns the file nor is about to remove it. -/
def Pc.Plain : Pc → Prop
  | .opening _ _ | .reading _ _ | .delaying _ _ | .released | .refusing | .refused _ | .threw =>
    True
  | _ => False

/-- What an operation of call `c` does: the place it leads to and the file it leaves. -/
inductive Move (W : World) (s : State) (c : ℕ) : Op → Pc → Option File → Prop where
  | settle {op : Op} {p : Pc} (hp : p.Plain) : Move W s c op p s.file
  | read {a r pid : ℕ} {f : File} (hf : s.file = some f) (hpid : holderPid f.text = some pid) :
    Move W s c .readHolder (.probing a r pid f.creator) s.file
  | probed {a r pid : ℕ} {seen : Option ℕ} (hpc : s.pc c = .probing a r pid seen)
    (hgone : ∀ p ∈ s.live, W.pidOf p ≠ pid) : Move W s c .probe (.aging a r seen) s.file
  | aged {a r : ℕ} {seen : Option ℕ} (hpc : s.pc c = .aging a r seen) :
    Move W s c .stat (.removing a r seen) s.file
  | remove {a r : ℕ} {seen : Option ℕ} (hpc : s.pc c = .removing a r seen) :
    Move W s c .remove (.opening a (r - 1)) none
  | create (hf : s.file = none) :
    Move W s c .openExclusive .created (some ⟨some c, "", s.now⟩)
  | write {f : File} (hpc : s.pc c = .created) (hf : s.file = some f) (hown : f.creator = some c) :
    Move W s c .writeOwner .holding (some ⟨some c, W.record c, s.now⟩)
  | writeLost (hpc : s.pc c = .created) (hf : ∀ f, s.file = some f → f.creator ≠ some c) :
    Move W s c .writeOwner .holding s.file
  | close (hpc : s.pc c = .holding) : Move W s c .close .closing s.file
  | unlink (hpc : s.pc c = .closing) : Move W s c .unlink .released none

/-- A failed attempt leads to a place that neither owns the file nor is about to remove
it. -/
theorem retry_plain (attempt reapsLeft : ℕ) :
  (retry attempt reapsLeft).Plain
  := by
  rw [retry]
  split
  all_goals exact True.intro

variable {op : Op} {W : World} {s t : State} {c : ℕ} {p : Pc}

/-- An operation that leads to a plain place and leaves the file as it is. -/
theorem Move.of_goto (hp : p.Plain) (h : some (s.goto c p) = some t) :
  ∃ p file, Move W s c op p file ∧ t = { s.goto c p with file := file }
  := by
  cases h
  use p, s.file, Move.settle hp
  rfl

/-- Every operation is one of the moves. -/
theorem callStep_cases
    (h : callStep W s c op = some t) :
  ∃ p file, Move W s c op p file ∧ t = { s.goto c p with file := file }
  := by
  cases op with
  | acquire =>
    cases hpc : s.pc c <;> simp only [callStep, hpc, reduceCtorEq] at h
    apply Move.of_goto _ h
    exact True.intro
  | openExclusive =>
    cases hpc : s.pc c <;> simp only [callStep, hpc, reduceCtorEq] at h
    cases hf : s.file with
    | none =>
      simp only [hf] at h
      cases h
      exact ⟨_, _, Move.create hf, rfl⟩
    | some f =>
    simp only [hf] at h
    split at h
    · apply Move.of_goto _ h
      exact True.intro
    · apply Move.of_goto (retry_plain _ _) h
  | writeOwner =>
    cases hpc : s.pc c <;> simp only [callStep, hpc, reduceCtorEq] at h
    cases hf : s.file with
    | none =>
      simp only [hf] at h
      cases h
      refine ⟨_, _, Move.writeLost hpc ?_, rfl⟩
      simp [hf]
    | some f =>
    simp only [hf] at h
    split at h
    · rename_i hown
      cases h
      exact ⟨_, _, Move.write hpc hf hown, rfl⟩
    rename_i hown
    cases h
    refine ⟨_, _, Move.writeLost hpc ?_, rfl⟩
    simpa [hf] using hown
  | readHolder =>
    cases hpc : s.pc c <;> simp only [callStep, hpc, reduceCtorEq] at h
    cases hf : s.file with
    | none =>
      simp only [hf] at h
      apply Move.of_goto (retry_plain _ _) h
    | some f =>
    simp only [hf] at h
    cases hpid : holderPid f.text with
    | none =>
      simp only [hpid] at h
      apply Move.of_goto (retry_plain _ _) h
    | some pid =>
      simp only [hpid] at h
      cases h
      exact ⟨_, _, Move.read hf hpid, rfl⟩
  | probe =>
    cases hpc : s.pc c <;> simp only [callStep, hpc, reduceCtorEq] at h
    split at h
    · apply Move.of_goto (retry_plain _ _) h
    rename_i hgone
    cases h
    push Not at hgone
    exact ⟨_, _, Move.probed hpc hgone, rfl⟩
  | stat =>
    cases hpc : s.pc c <;> simp only [callStep, hpc, reduceCtorEq] at h
    cases hf : s.file with
    | none =>
      simp only [hf] at h
      apply Move.of_goto (retry_plain _ _) h
    | some f =>
    simp only [hf] at h
    split at h
    · apply Move.of_goto (retry_plain _ _) h
    · cases h
      exact ⟨_, _, Move.aged hpc, rfl⟩
  | remove =>
    cases hpc : s.pc c <;> simp only [callStep, hpc, reduceCtorEq] at h
    cases h
    exact ⟨_, _, Move.remove hpc, rfl⟩
  | delay | readConflict =>
    cases hpc : s.pc c <;> simp only [callStep, hpc, reduceCtorEq] at h
    apply Move.of_goto _ h
    exact True.intro
  | close =>
    cases hpc : s.pc c <;> simp only [callStep, hpc, reduceCtorEq] at h
    cases h
    exact ⟨_, _, Move.close hpc, rfl⟩
  | unlink =>
    cases hpc : s.pc c <;> simp only [callStep, hpc, reduceCtorEq] at h
    cases h
    exact ⟨_, _, Move.unlink hpc, rfl⟩
  | fails =>
  cases hpc : s.pc c <;> simp only [callStep, hpc, reduceCtorEq] at h
  case reading => apply Move.of_goto (retry_plain _ _) h
  case aging => apply Move.of_goto (retry_plain _ _) h
  all_goals
    apply Move.of_goto _ h
    exact True.intro

/-! ### The text of the lock file -/

/-- The process id found in what a call wrote is the process id of its process. -/
theorem holderPid_record {pid : ℕ} (h : holderPid (W.record c) = some pid) :
  pid = W.pidOf (W.procOf c)
  := by
  have hdig : ∀ d ∈ Nat.toDigits 10 (W.pidOf (W.procOf c)), d.isDigit := by
    intro d hd
    apply Nat.isDigit_of_mem_toDigits (by decide) (by decide) hd
  obtain ⟨d, ds, hd⟩ := exists_cons_of_ne_nil
    (Nat.toDigits_ne_nil (n := W.pidOf (W.procOf c)) (b := 10))
  have htext : pidText (W.record c) = some (Nat.toDigits 10 (W.pidOf (W.procOf c))) := by
    have hlist : (W.record c).toList =
        Nat.toDigits 10 (W.pidOf (W.procOf c)) ++ ' ' :: ((W.owner c).toList ++ ['\n']) := by
      simp [World.record, Nat.toString_eq_repr, Nat.toList_repr]
    have hspace : isSpace d = false := by
      apply isSpace_of_isDigit
      apply hdig
      simp [hd]
    rw [pidText, hlist, hd, cons_append, dropWhile_cons_of_neg (by simp [hspace]),
      ← cons_append, ← hd, takeWhile_append_of_pos hdig]
    rw [takeWhile_cons_of_neg (by decide), append_nil, hd]
  rw [holderPid, htext] at h
  simp only [Option.ite_none_right_eq_some, Option.some.injEq, Nat.ofDigitChars_ten_toDigits] at h
  apply h.2.symm

/-! ### Runs in which no file is replaced under a judgement -/

/-- What a call knows that read the file of call `d`: the process id it found is that of the
process of `d`, and once it has found no such process, the process of `d` has crashed. -/
def Judged (W : World) (s : State) : Pc → Prop
  | .probing _ _ pid (some d) => pid = W.pidOf (W.procOf d) ∧ s.pc d ≠ .idle
  | .aging _ _ (some d) | .removing _ _ (some d) => W.procOf d ∈ s.crashed
  | _ => True

/-- What a run keeps in which no file is replaced under a judgement: calls are made by
processes that ran, no process runs again that crashed, a live call that created the file
finds it in place, the text of a file is the record of the call that created it or not
written yet, and every judgement is right. -/
structure Invariant (W : World) (s : State) : Prop where
  started : ∀ c, s.pc c ≠ .idle → W.procOf c ∈ s.live ∨ W.procOf c ∈ s.crashed
  apart : ∀ p ∈ s.live, p ∉ s.crashed
  owned : ∀ c, Owned W s c → ∃ f, s.file = some f ∧ f.creator = some c
  written : ∀ f c, s.file = some f → f.creator = some c →
    s.pc c ≠ .idle ∧ (f.text = "" ∨ f.text = W.record c)
  judged : ∀ c, Judged W s (s.pc c)

theorem Initial.invariant (hs : Initial s) :
  Invariant W s
  := by
  constructor
  · intro c hc
    apply absurd (hs.idle c) hc
  · apply hs.apart
  · rintro c ⟨-, hc⟩
    simp [hs.idle c, Pc.Owns] at hc
  · intro f c hf hc
    simp [hs.leftover f hf] at hc
  · intro c
    rw [hs.idle c]
    exact True.intro

/-- A plain place is not the idle one, and nothing has been judged there. -/
theorem Pc.Plain.spec (hp : p.Plain) :
  p ≠ .idle ∧ ¬ p.Owns ∧ Judged W s p
  := by
  cases p <;> simp_all [Pc.Plain, Pc.Owns, Judged]

variable {file : Option File}

/-- A move leads to a place that is not idle. -/
theorem Move.ne_idle
    (h : Move W s c op p file) :
  p ≠ .idle
  := by
  cases h with
  | settle hp => apply (hp.spec (W := W) (s := s)).1
  | _ => nofun

/-- Judgements stay right while no call becomes idle again and no crash is undone. -/
theorem Judged.mono (h : Judged W s p)
    (hpc : ∀ d, s.pc d ≠ .idle → t.pc d ≠ .idle) (hcrash : ∀ q ∈ s.crashed, q ∈ t.crashed) :
  Judged W t p
  := by
  match p, h with
  | .probing _ _ _ (some d), ⟨hpid, hd⟩ => exact ⟨hpid, hpc d hd⟩
  | .aging _ _ (some _), h | .removing _ _ (some _), h => exact hcrash _ h
  | .probing _ _ _ none, _ | .aging _ _ none, _ | .removing _ _ none, _ => exact True.intro
  | .idle, _ | .opening _ _, _ | .created, _ | .holding, _ | .closing, _ | .released, _
  | .reading _ _, _ | .delaying _ _, _ | .refusing, _ | .refused _, _ | .threw, _ =>
    exact True.intro

/-- A call that has left the idle place does not come back to it. -/
theorem Move.not_idle_mono {d : ℕ} (h : Move W s c op p file) (hd : s.pc d ≠ .idle) :
  (s.goto c p).pc d ≠ .idle
  := by
  by_cases hdc : d = c
  · subst hdc
    simp only [State.goto, Function.update_self]
    apply h.ne_idle
  · simpa only [State.goto, Function.update_of_ne hdc] using hd

/-- What a call judges is right. -/
theorem Move.judged
    (h : Move W s c op p file) (hs : Invariant W s) :
  Judged W s p
  := by
  cases h with
  | settle hp => apply hp.spec.2.2
  | @read a r pid f hf hpid =>
    cases hd : f.creator with
    | none => exact True.intro
    | some d =>
    obtain ⟨hidle, htext⟩ := hs.written f d hf hd
    constructor
    · rcases htext with htext | htext
      · rw [htext] at hpid
        cases hpid
      · rw [htext] at hpid
        apply holderPid_record hpid
    · apply hidle
  | @probed a r pid seen hpc hgone =>
    have hjudged := hs.judged c
    rw [hpc] at hjudged
    cases seen with
    | none => exact True.intro
    | some d =>
    obtain ⟨hpid, hidle⟩ := hjudged
    rcases hs.started d hidle with hlive | hcrash
    · apply absurd hpid.symm (hgone _ hlive)
    · apply hcrash
  | @aged a r seen hpc =>
    have hjudged := hs.judged c
    rw [hpc] at hjudged
    cases seen with
    | none => exact True.intro
    | some d => apply hjudged
  | remove | create | write | writeLost | close | unlink => exact True.intro

/-- A move of a live call that removes no file put in the place of the one it read leaves
every other live call that created the file its file. -/
theorem Move.owned_other {d : ℕ} (h : Move W s c op p file) (hs : Invariant W s)
    (hlive : W.procOf c ∈ s.live) (hok : Undisturbed W s (.call c op)) (hdc : d ≠ c)
    (hd : Owned W s d) :
  ∃ f, file = some f ∧ f.creator = some d
  := by
  obtain ⟨f, hf, hcreator⟩ := hs.owned d hd
  cases h with
  | settle | read | probed | aged | writeLost | close => exact ⟨f, hf, hcreator⟩
  | @remove a r seen hpc =>
    simp only [Undisturbed, hpc, hf] at hok
    rcases hok with hseen | hseen
    · have hjudged := hs.judged c
      rw [hpc, ← hseen, hcreator] at hjudged
      apply absurd hjudged (hs.apart _ hd.1)
    · apply absurd hd (hseen d hcreator)
  | create hnone =>
    rw [hnone] at hf
    cases hf
  | @write g hpc hg hown =>
    rw [hg] at hf
    cases hf
    rw [hown] at hcreator
    apply absurd (Option.some.inj hcreator).symm hdc
  | unlink hpc =>
  obtain ⟨g, hg, hown⟩ := hs.owned c ⟨hlive, Or.inr (Or.inr hpc)⟩
  rw [hg] at hf
  cases hf
  rw [hown] at hcreator
  apply absurd (Option.some.inj hcreator).symm hdc

/-- A live call that a move leaves owning the file finds it in place. -/
theorem Move.owned_self
    (h : Move W s c op p file) (hs : Invariant W s) (hlive : W.procOf c ∈ s.live) (hp : p.Owns) :
  ∃ f, file = some f ∧ f.creator = some c
  := by
  cases h with
  | settle hplain => apply absurd hp (hplain.spec (W := W) (s := s)).2.1
  | read | probed | aged | remove | unlink => simp [Pc.Owns] at hp
  | create | write => exact ⟨_, rfl, rfl⟩
  | writeLost hpc hf =>
    obtain ⟨f, hg, hown⟩ := hs.owned c ⟨hlive, Or.inl hpc⟩
    apply absurd hown (hf f hg)
  | close hpc => apply hs.owned c ⟨hlive, Or.inr (Or.inl hpc)⟩

/-- The file a move leaves holds nothing or what the call that created it wrote. -/
theorem Move.written {d : ℕ} {f : File} (h : Move W s c op p file) (hs : Invariant W s)
    (hf : file = some f) (hd : f.creator = some d) :
  (s.goto c p).pc d ≠ .idle ∧ (f.text = "" ∨ f.text = W.record d)
  := by
  have hmono := h.not_idle_mono (d := d)
  have hself : (s.goto c p).pc c ≠ .idle := by
    simp only [State.goto, Function.update_self]
    apply h.ne_idle
  cases h with
  | settle | read | probed | aged | writeLost | close =>
    obtain ⟨hidle, htext⟩ := hs.written f d hf hd
    exact ⟨hmono hidle, htext⟩
  | remove | unlink => cases hf
  | create =>
    cases hf
    cases hd
    exact ⟨hself, Or.inl rfl⟩
  | write =>
    cases hf
    cases hd
    exact ⟨hself, Or.inr rfl⟩

/-- Every operation of a live call that removes no file put in the place of the one it read
keeps the invariant. -/
theorem Invariant.call (hs : Invariant W s)
    (hlive : W.procOf c ∈ s.live) (hok : Undisturbed W s (.call c op))
    (h : callStep W s c op = some t) :
  Invariant W t
  := by
  obtain ⟨p, file, hmove, rfl⟩ := callStep_cases h
  constructor
  · intro d hd
    by_cases hdc : d = c
    · subst hdc
      left
      apply hlive
    · apply hs.started d
      simpa only [State.goto, Function.update_of_ne hdc] using hd
  · apply hs.apart
  · rintro d ⟨hdlive, hd⟩
    by_cases hdc : d = c
    · subst hdc
      apply hmove.owned_self hs hlive
      simpa only [State.goto, Function.update_self] using hd
    · apply hmove.owned_other hs hlive hok hdc
      use hdlive
      simpa only [State.goto, Function.update_of_ne hdc] using hd
  · intro f d hf hd
    apply hmove.written hs hf hd
  intro d
  have hjudged : Judged W s ((s.goto c p).pc d) := by
    by_cases hdc : d = c
    · subst hdc
      simp only [State.goto, Function.update_self]
      apply hmove.judged hs
    · simp only [State.goto, Function.update_of_ne hdc]
      apply hs.judged d
  apply hjudged.mono
  · intro e he
    apply hmove.not_idle_mono he
  · intro q hq
    apply hq

/-- A process that crashes leaves the rest as it is. -/
theorem Invariant.crash {p : ℕ} (hs : Invariant W s) :
  Invariant W { s with live := s.live.filter (· ≠ p), crashed := p :: s.crashed }
  := by
  constructor
  · intro c hc
    by_cases hp : W.procOf c = p
    · right
      apply mem_cons.mpr (Or.inl hp)
    rcases hs.started c hc with hlive | hcrash
    · left
      apply mem_filter.mpr
      use hlive
      simpa using hp
    · right
      apply mem_cons_of_mem _ hcrash
  · intro q hq hcrash
    obtain ⟨hlive, hne⟩ := mem_filter.mp hq
    rcases mem_cons.mp hcrash with rfl | hcrash
    · simp at hne
    · apply hs.apart q hlive hcrash
  · rintro c ⟨hlive, hc⟩
    apply hs.owned c
    exact ⟨mem_of_mem_filter hlive, hc⟩
  · apply hs.written
  intro c
  apply (hs.judged c).mono
  · intro d hd
    apply hd
  · intro q hq
    apply mem_cons_of_mem _ hq

/-- A process that starts and has not crashed owns no file. -/
theorem Invariant.spawn {p : ℕ} (hs : Invariant W s) (hcrash : p ∉ s.crashed) :
  Invariant W { s with live := p :: s.live }
  := by
  constructor
  · intro c hc
    rcases hs.started c hc with hc | hc
    · left
      apply mem_cons_of_mem _ hc
    · right
      apply hc
  · intro q hq
    rcases mem_cons.mp hq with rfl | hq
    · apply hcrash
    · apply hs.apart q hq
  · rintro c ⟨hc, howns⟩
    have hidle : s.pc c ≠ .idle := by
      rcases howns with h | h | h <;> simp_all
    have hold : W.procOf c ∈ s.live := by
      rcases mem_cons.mp hc with rfl | hc
      · rcases hs.started c hidle with h | h
        · apply h
        · apply absurd h hcrash
      · apply hc
    apply hs.owned c ⟨hold, howns⟩
  · apply hs.written
  intro c
  apply (hs.judged c).mono
  · intro d hd
    apply hd
  · intro q hq
    apply hq

/-- Every step that removes no file put in the place of the one read keeps the
invariant. -/
theorem Invariant.step {a : Action} (hs : Invariant W s)
    (hok : Undisturbed W s a) (h : step W s a = some t) :
  Invariant W t
  := by
  cases a with
  | call c op =>
    simp only [FileLock.step, Option.ite_none_right_eq_some] at h
    apply hs.call h.1 hok h.2
  | crash p =>
    simp only [FileLock.step, Option.ite_none_right_eq_some, Option.some.injEq] at h
    obtain ⟨-, rfl⟩ := h
    apply hs.crash
  | spawn p =>
    simp only [FileLock.step, Option.ite_none_right_eq_some, Option.some.injEq] at h
    obtain ⟨⟨-, hcrash⟩, rfl⟩ := h
    apply hs.spawn hcrash
  | clock t =>
    cases h
    exact ⟨hs.started, hs.apart, hs.owned, hs.written, fun c => (hs.judged c).mono
      (fun _ h => h) (fun _ h => h)⟩

/-- Where every live call that created the file finds it in place, the lock excludes. -/
theorem Invariant.excludes (hs : Invariant W s) :
  Excludes W s
  := by
  have hholds : ∀ c, Holds W s c → Owned W s c := by
    rintro c ⟨hlive, hc⟩
    exact ⟨hlive, Or.inr hc⟩
  constructor
  · intro c d hc hd
    obtain ⟨f, hf, hfc⟩ := hs.owned c (hholds c hc)
    obtain ⟨g, hg, hgd⟩ := hs.owned d (hholds d hd)
    rw [hf] at hg
    cases hg
    rw [hfc] at hgd
    apply Option.some.inj hgd
  intro c f hlive hc hf
  obtain ⟨g, hg, hgc⟩ := hs.owned c ⟨hlive, Or.inr (Or.inr hc)⟩
  rw [hf] at hg
  cases hg
  apply hgc

/-! ### The lock as a lock -/

/-- In every run in which no call that judged a file stale removes a file put in its place by
a call that is still live, at most one live call holds the lock, and a release removes no
file but the one its call created. -/
theorem excludes_of_undisturbed
    {W : World} {s t : State} {as : List Action} (hs : Initial s)
    (hok : Guarded (step W) (Undisturbed W) s as) (hrun : run (step W) s as = some t) :
  Excludes W t
  := by
  apply Invariant.excludes (W := W)
  apply Guarded.invariant _ hs.invariant hok hrun
  intro s a t hs hok h
  apply hs.step hok h

/-- A system whose process `p` has process id `p + 1` and makes call `p`. -/
def sampleWorld : World where
  procOf c := c
  pidOf p := p + 1
  owner _ := "session"

/-- Two processes, and the lock file of a third that is long gone. -/
def sampleState : State where
  file := some ⟨none, "77 session\n", 0⟩
  live := [0, 1]
  crashed := []
  now := 120000
  pc _ := .idle

/-- A call that finds the file and judges it stale. -/
def judge (c : ℕ) : List Action :=
  [.call c .acquire, .call c .openExclusive, .call c .readHolder, .call c .probe, .call c .stat]

/-- A call that removes the file it judged stale and takes the lock. -/
def takeOver (c : ℕ) : List Action :=
  [.call c .remove, .call c .openExclusive, .call c .writeOwner]

theorem sampleState_initial : Initial sampleState where
  idle _ := rfl
  leftover f h := by
    cases h
    rfl
  apart := by simp [sampleState]

/-- A call takes over the stale file, another finds the new file held by a live process, the
first releases. -/
def handOver : List Action :=
  judge 0 ++ takeOver 0 ++
    [.call 1 .acquire, .call 1 .openExclusive, .call 1 .readHolder, .call 1 .probe,
      .call 0 .close, .call 0 .unlink]

theorem excludes_of_undisturbed_handOver :
  ∃ t, run (step sampleWorld) sampleState handOver = some t ∧ Excludes sampleWorld t
  := by
  obtain ⟨t, ht⟩ : ∃ t, run (step sampleWorld) sampleState handOver = some t := ⟨_, rfl⟩
  use t, ht
  apply excludes_of_undisturbed sampleState_initial _ ht
  decide

/-- The lock does not exclude: of two calls that judge one file stale, the second removes
the file with which the first has taken the lock. -/
theorem not_excludes :
  ¬ ∀ W s as t, Initial s → run (step W) s as = some t → Excludes W t
  := by
  intro h
  have hexcludes := h sampleWorld sampleState
    (judge 0 ++ judge 1 ++ takeOver 0 ++ takeOver 1) _ sampleState_initial rfl
  have heq := hexcludes.exclusive 0 1 ⟨by decide, Or.inl rfl⟩ ⟨by decide, Or.inl rfl⟩
  cases heq

end FileLock
