import VolundCode.Lib.Run
import Mathlib.Tactic

/-!
# The lock of the daemon

A daemon takes the lock when it has created the lock file, which must not exist yet, and has
written its process id into it. One that finds a file reads the process id, looks whether
such a process runs, and removes the file if it does not. Each of these is a step of its
own, so the steps of any number of daemons interleave, and a daemon can crash between any
two of them. The file may then be empty, or hold a part of what was written.

`single_of_orderly` says that in every run at most one live daemon holds the lock, and one
that boots while none does gets it, if no daemon removes a file that another has created
in place of the one it has read, and none stops between creating the file and having
written it. Without the first two daemons can hold the lock, and after a crash between
the two steps no daemon can boot (`not_single`).
-/

namespace DaemonLock

open Run List

/-! ### Daemons -/

/-- The lock file: which of the files ever created it is, and the process id that can be read
from it. There is none in a file that is empty or written in part. -/
structure File where
  generation : ℕ
  pid : Option ℕ
  deriving DecidableEq, Repr

/-- Where a daemon stands: about to `open` the file, to write it, to read it, to look for the
process it has read of, or to remove it; holding the lock; or done with it, having released
it or thrown. Of a file that was read only the process id matters to the daemon. -/
inductive Phase where
  | opening
  | created (generation : ℕ)
  | reading
  | checking (seen : Option File)
  | removing (seen : Option File)
  | holding (generation : ℕ)
  | ended
  deriving DecidableEq, Repr

structure Process where
  pid : ℕ
  alive : Bool
  phase : Phase
  deriving DecidableEq, Repr

structure State where
  file : Option File
  processes : List Process
  generations : ℕ
  deriving DecidableEq, Repr

/-- `next` is the next step of a daemon up to an `await`; `foreign` says whether some process
other than the daemons runs under the process id it looks for. -/
inductive Action where
  | spawn (pid : ℕ)
  | next (daemon : ℕ) (foreign : Bool)
  | writeFails (daemon : ℕ)
  | release (daemon : ℕ)
  | crash (daemon : ℕ)
  deriving DecidableEq, Repr

/-- Some daemon runs under the process id. -/
def State.runs (s : State) (pid : ℕ) : Bool :=
  s.processes.any fun process => process.alive && process.pid == pid

/-- Whether the owner counts as alive: one whose process id could not be read does. -/
def State.ownerAlive (s : State) (ownerPid : ℕ) (foreign : Bool) : Bool :=
  if 0 < ownerPid then s.runs ownerPid || foreign else true

/-- A daemon comes to a phase. -/
def State.goto (s : State) (daemon : ℕ) (process : Process) (phase : Phase) : State :=
  { s with processes := s.processes.set daemon { process with phase } }

/-- The next step of a live daemon in `acquireDaemonLock`. -/
def advance (s : State) (daemon : ℕ) (process : Process) (foreign : Bool) : Option State :=
  match process.phase with
  | .opening =>
    match s.file with
    | none =>
      some { s.goto daemon process (.created s.generations) with
        file := some ⟨s.generations, none⟩
        generations := s.generations + 1 }
    | some _ => some (s.goto daemon process .reading)
  | .created generation =>
    -- the handle is of the file that was created, whatever is at the path by now
    let file := s.file.map fun file =>
      if file.generation = generation then { file with pid := some process.pid } else file
    some { s.goto daemon process (.holding generation) with file }
  | .reading => some (s.goto daemon process (.checking s.file))
  | .checking seen =>
    let ownerPid := (seen.bind (·.pid)).getD 0
    if s.ownerAlive ownerPid foreign ∧ ownerPid ≠ process.pid then some (s.goto daemon process .ended)
    else some (s.goto daemon process (.removing seen))
  | .removing _ => some { s.goto daemon process .opening with file := none }
  | .holding _ => none
  | .ended => none

/-- A step of the system. A new daemon runs under a process id that no live one has. -/
def step (s : State) : Action → Option State
  | .spawn pid =>
    if pid = 0 ∨ s.runs pid then none
    else some { s with processes := s.processes ++ [⟨pid, true, .opening⟩] }
  | .next daemon foreign =>
    match s.processes[daemon]? with
    | some process => if process.alive then advance s daemon process foreign else none
    | none => none
  | .writeFails daemon =>
    match s.processes[daemon]? with
    | some ⟨pid, true, .created _⟩ => some (s.goto daemon ⟨pid, true, .ended⟩ .ended)
    | _ => none
  | .release daemon =>
    match s.processes[daemon]? with
    | some ⟨pid, true, .holding _⟩ =>
      some { s.goto daemon ⟨pid, true, .ended⟩ .ended with file := none }
    | _ => none
  | .crash daemon =>
    match s.processes[daemon]? with
    | some process =>
      some { s with processes := s.processes.set daemon { process with alive := false } }
    | none => none

/-- No file and no daemon. -/
def initial : State :=
  ⟨none, [], 0⟩

/-! ### A single daemon -/

/-- The lock file a daemon has created and not given up. -/
def Phase.generation : Phase → Option ℕ
  | .created generation => some generation
  | .holding generation => some generation
  | _ => none

/-- A live daemon has created the lock file of this generation and has not given it up. -/
def Owned (s : State) (generation : ℕ) : Prop :=
  ∃ process ∈ s.processes, process.alive ∧ process.phase.generation = some generation

instance (s : State) (generation : ℕ) : Decidable (Owned s generation) :=
  inferInstanceAs (Decidable (∃ process ∈ s.processes, _ ∧ _))

/-- A live daemon holds the lock. -/
def Holds (s : State) (daemon : ℕ) : Prop :=
  ∃ process, s.processes[daemon]? = some process ∧ process.alive ∧
    ∃ generation, process.phase = .holding generation

/-- The steps of one daemon alone, until it can make no more of them. -/
def bootAlone (daemon : ℕ) : ℕ → State → State
  | 0, s => s
  | k + 1, s =>
    match step s (.next daemon false) with
    | none => s
    | some t => bootAlone daemon k t

/-- At most one live daemon holds the lock; and where no live daemon has created the lock file,
a new one that boots alone gets it, unless the process id in the file has come to be that
of another process. -/
structure Single (s : State) : Prop where
  exclusive : ∀ p q, Holds s p → Holds s q → p = q
  recovers : (∀ generation, ¬ Owned s generation) →
    (∀ file ∈ s.file, ∀ owner ∈ file.pid, s.runs owner = false) →
    ∀ pid t, step s (.spawn pid) = some t →
    Holds (bootAlone s.processes.length 6 t) s.processes.length

/-- A daemon that removes the lock file removes the one it has read, or at least none that a live
daemon has created, and none stops between creating the file and having written it. -/
def Orderly (s : State) : Action → Prop
  | .next daemon _ =>
    match s.processes[daemon]? with
    | some ⟨_, true, .removing seen⟩ =>
      ∀ file ∈ s.file, file.generation ∈ seen.map (·.generation) ∨ ¬ Owned s file.generation
    | _ => True
  | .writeFails _ => False
  | .crash daemon =>
    match s.processes[daemon]? with
    | some ⟨_, true, .created _⟩ => False
    | _ => True
  | _ => True

/-! ### What every step preserves -/

/-- The lock file is that of the live daemon that has created one. A daemon that has read a file
knows the process id of whoever owns it, and one that is about to remove it knows that
nobody does. -/
structure Inv (s : State) : Prop where
  created : ∀ process ∈ s.processes, process.alive → ∀ generation,
    process.phase = .created generation → s.file = some ⟨generation, none⟩
  holding : ∀ process ∈ s.processes, process.alive → ∀ generation,
    process.phase = .holding generation → s.file = some ⟨generation, some process.pid⟩
  unique : ∀ (i j : ℕ) (p q : Process) (generation : ℕ), s.processes[i]? = some p →
    s.processes[j]? = some q → p.phase.generation = some generation →
    q.phase.generation = some generation → i = j
  fresh : ∀ process ∈ s.processes, ∀ generation, process.phase.generation = some generation →
    generation < s.generations
  freshFile : ∀ file ∈ s.file, file.generation < s.generations
  freshSeen : ∀ process ∈ s.processes, ∀ file,
    process.phase = .checking (some file) ∨ process.phase = .removing (some file) →
    file.generation < s.generations
  pids : ∀ (i j : ℕ) (p q : Process), s.processes[i]? = some p → s.processes[j]? = some q →
    p.alive → q.alive → p.pid = q.pid → i = j
  pidNeZero : ∀ process ∈ s.processes, process.pid ≠ 0
  filePid : ∀ file ∈ s.file, file.pid ≠ some 0
  checking : ∀ process ∈ s.processes, ∀ file pid, process.phase = .checking (some file) →
    file.pid = some pid → ∀ q ∈ s.processes, q.alive →
    q.phase.generation = some file.generation → q.pid = pid
  removing : ∀ process ∈ s.processes, ∀ seen, process.phase = .removing seen →
    ∃ file, seen = some file ∧ ¬ Owned s file.generation
  unwritten : ∀ file ∈ s.file, file.pid = none →
    ∃ process ∈ s.processes, process.alive ∧ process.phase = .created file.generation

/-- What a live daemon has created is the lock file. -/
theorem Inv.file {s : State} (h : Inv s) {process : Process} (hmem : process ∈ s.processes)
    (halive : process.alive) {generation : ℕ} (hgen : process.phase.generation = some generation) :
  ∃ pid, s.file = some ⟨generation, pid⟩
  := by
  cases hphase : process.phase with
  | created g =>
    obtain rfl : g = generation := by simpa [hphase, Phase.generation] using hgen
    exact ⟨_, h.created process hmem halive g hphase⟩
  | holding g =>
    obtain rfl : g = generation := by simpa [hphase, Phase.generation] using hgen
    exact ⟨_, h.holding process hmem halive g hphase⟩
  | opening | reading | checking seen | removing seen | ended =>
    simp [hphase, Phase.generation] at hgen

/-- The daemons are those there were, but for the one with a number. -/
structure Puts (processes : List Process) (daemon : ℕ) (process : Process) (now : List Process) :
    Prop where
  get : ∀ i q, now[i]? = some q → i = daemon ∧ q = process ∨ i ≠ daemon ∧ processes[i]? = some q
  self : process ∈ now
  others : ∀ (i : ℕ) q, i ≠ daemon → processes[i]? = some q → q ∈ now

section Replaced

variable {s t : State} {daemon : ℕ} {process process' : Process}

/-- A daemon is replaced. -/
theorem puts_set {processes : List Process} (hd : processes[daemon]? = some process) :
  Puts processes daemon process' (processes.set daemon process')
  := by
  have hlt := (List.getElem?_eq_some_iff.mp hd).1
  constructor
  · intro i q hi
    rw [List.getElem?_set] at hi
    by_cases hdi : daemon = i
    · rw [if_pos hdi] at hi
      split_ifs at hi
      exact .inl ⟨hdi.symm, (Option.some.inj hi).symm⟩
    · rw [if_neg hdi] at hi
      exact .inr ⟨Ne.symm hdi, hi⟩
  · exact mem_set hlt _
  · intro i q hi hq
    apply mem_of_getElem? (i := i)
    rw [List.getElem?_set_ne (Ne.symm hi)]
    exact hq

/-- A daemon is added. -/
theorem puts_append (processes : List Process) (process : Process) :
  Puts processes processes.length process (processes ++ [process])
  := by
  constructor
  · intro i q hi
    rw [List.getElem?_append] at hi
    split_ifs at hi with hlt
    · exact .inr ⟨hlt.ne, hi⟩
    · have hzero := (List.getElem?_eq_some_iff.mp hi).1
      rw [length_singleton] at hzero
      refine .inl ⟨by omega, ?_⟩
      exact mem_singleton.mp (mem_of_getElem? hi)
  · simp
  · intro i q _ hq
    exact mem_append_left _ (mem_of_getElem? hq)

/-- Everything is in order when a daemon is put in a place where it is in order itself. The lock
file is still that of the other daemon that owns it, if there is one, and the daemon owns a file that
the one in its place has owned, or a new one. -/
theorem Inv.put (h : Inv s) (hput : Puts s.processes daemon process t.processes)
    (hle : s.generations ≤ t.generations)
    (hkeep : ∀ (i : ℕ) (q : Process), i ≠ daemon → s.processes[i]? = some q → q.alive →
      q.phase.generation ≠ none → t.file = s.file)
    (hgen : ∀ generation, process.phase.generation = some generation →
      generation < t.generations ∧ (s.generations ≤ generation ∨
        ∃ old, s.processes[daemon]? = some old ∧ old.phase.generation = some generation ∧
          old.pid = process.pid ∧ (process.alive → old.alive)))
    (hfile : ∀ file ∈ t.file, file.generation < t.generations ∧ file.pid ≠ some 0 ∧
      (file.pid = none → ∃ q ∈ t.processes, q.alive ∧ q.phase = .created file.generation))
    (hmade : process.alive → ∀ generation, process.phase = .created generation →
      t.file = some ⟨generation, none⟩)
    (hhold : process.alive → ∀ generation, process.phase = .holding generation →
      t.file = some ⟨generation, some process.pid⟩)
    (hpid : process.pid ≠ 0 ∧ (process.alive → ∀ (i : ℕ) (q : Process), i ≠ daemon →
      s.processes[i]? = some q → q.alive → q.pid ≠ process.pid))
    (hseen : ∀ file, process.phase = .checking (some file) ∨
      process.phase = .removing (some file) → file.generation < s.generations)
    (hchecking : ∀ file pid, process.phase = .checking (some file) → file.pid = some pid →
      ∀ q ∈ s.processes, q.alive → q.phase.generation = some file.generation → q.pid = pid)
    (hremoving : ∀ seen, process.phase = .removing seen →
      ∃ file, seen = some file ∧ ¬ Owned s file.generation) :
  Inv t
  := by
  have hmem : ∀ q ∈ t.processes, q = process ∨ ∃ i, i ≠ daemon ∧ s.processes[i]? = some q := by
    intro q hq
    obtain ⟨i, hi⟩ := mem_iff_getElem?.mp hq
    rcases hput.get i q hi with ⟨-, rfl⟩ | ⟨hne, hi⟩
    · exact .inl rfl
    · exact .inr ⟨i, hne, hi⟩
  -- whoever owns a file owned it before, unless it is a new one
  have hback : ∀ (k : ℕ) (r : Process) generation, t.processes[k]? = some r →
      r.phase.generation = some generation → s.generations ≤ generation ∧ k = daemon ∨
        ∃ r', s.processes[k]? = some r' ∧ r'.phase.generation = some generation ∧
          r'.pid = r.pid ∧ (r.alive → r'.alive) := by
    intro k r g hk hg
    rcases hput.get k r hk with ⟨rfl, rfl⟩ | ⟨-, hk⟩
    · exact (hgen g hg).2.imp_left fun hnew => ⟨hnew, rfl⟩
    · exact .inr ⟨r, hk, hg, rfl, id⟩
  have howner : ∀ g, g < s.generations → ∀ r ∈ t.processes, r.alive →
      r.phase.generation = some g →
      ∃ r' ∈ s.processes, r'.alive ∧ r'.phase.generation = some g ∧ r'.pid = r.pid := by
    intro g hlt r hr hra hg
    obtain ⟨k, hk⟩ := mem_iff_getElem?.mp hr
    rcases hback k r g hk hg with ⟨hnew, -⟩ | ⟨r', hr', hg', hp, ha⟩
    · omega
    · exact ⟨r', mem_of_getElem? hr', ha hra, hg', hp⟩
  have hlt : ∀ q ∈ t.processes, ∀ file, q.phase = .checking (some file) ∨
      q.phase = .removing (some file) → file.generation < s.generations := by
    intro q hq file hfile
    rcases hmem q hq with rfl | ⟨i, -, hi⟩
    · exact hseen file hfile
    · exact h.freshSeen q (mem_of_getElem? hi) file hfile
  constructor
  · intro q hq hqa g hg
    rcases hmem q hq with rfl | ⟨i, hne, hi⟩
    · exact hmade hqa g hg
    · rw [hkeep i q hne hi hqa (by simp [hg, Phase.generation])]
      exact h.created q (mem_of_getElem? hi) hqa g hg
  · intro q hq hqa g hg
    rcases hmem q hq with rfl | ⟨i, hne, hi⟩
    · exact hhold hqa g hg
    · rw [hkeep i q hne hi hqa (by simp [hg, Phase.generation])]
      exact h.holding q (mem_of_getElem? hi) hqa g hg
  · intro i j p q g hi hj hgp hgq
    rcases hback i p g hi hgp with ⟨hnew, hid⟩ | ⟨p', hp', hgp', -⟩
    · rcases hback j q g hj hgq with ⟨-, hjd⟩ | ⟨q', hq', hgq', -⟩
      · exact hid.trans hjd.symm
      · have hold := h.fresh q' (mem_of_getElem? hq') g hgq'
        omega
    · rcases hback j q g hj hgq with ⟨hnew, -⟩ | ⟨q', hq', hgq', -⟩
      · have hold := h.fresh p' (mem_of_getElem? hp') g hgp'
        omega
      · exact h.unique i j p' q' g hp' hq' hgp' hgq'
  · intro q hq g hg
    rcases hmem q hq with rfl | ⟨i, -, hi⟩
    · exact (hgen g hg).1
    · exact (h.fresh q (mem_of_getElem? hi) g hg).trans_le hle
  · exact fun file hf => (hfile file hf).1
  · exact fun q hq file hf => (hlt q hq file hf).trans_le hle
  · intro i j p q hi hj hpa hqa hpq
    rcases hput.get i p hi with ⟨hid, rfl⟩ | ⟨hne, hi⟩
    · rcases hput.get j q hj with ⟨hjd, -⟩ | ⟨hne, hj⟩
      · exact hid.trans hjd.symm
      · exact absurd hpq.symm (hpid.2 hpa j q hne hj hqa)
    · rcases hput.get j q hj with ⟨-, rfl⟩ | ⟨-, hj⟩
      · exact absurd hpq (hpid.2 hqa i p hne hi hpa)
      · exact h.pids i j p q hi hj hpa hqa hpq
  · intro q hq
    rcases hmem q hq with rfl | ⟨i, -, hi⟩
    · exact hpid.1
    · exact h.pidNeZero q (mem_of_getElem? hi)
  · exact fun file hf => (hfile file hf).2.1
  · intro q hq file pid hqf hfp r hr hra hrg
    obtain ⟨r', hr', hra', hrg', hrp⟩ := howner _ (hlt q hq file (.inl hqf)) r hr hra hrg
    rw [← hrp]
    rcases hmem q hq with rfl | ⟨i, -, hi⟩
    · exact hchecking file pid hqf hfp r' hr' hra' hrg'
    · exact h.checking q (mem_of_getElem? hi) file pid hqf hfp r' hr' hra' hrg'
  · intro q hq seen hqs
    have hnone : ∃ file, seen = some file ∧ ¬ Owned s file.generation := by
      rcases hmem q hq with rfl | ⟨i, -, hi⟩
      · exact hremoving seen hqs
      · exact h.removing q (mem_of_getElem? hi) seen hqs
    obtain ⟨file, rfl, hnone⟩ := hnone
    refine ⟨file, rfl, ?_⟩
    rintro ⟨r, hr, hra, hrg⟩
    obtain ⟨r', hr', hra', hrg', -⟩ := howner _ (hlt q hq file (.inr hqs)) r hr hra hrg
    exact hnone ⟨r', hr', hra', hrg'⟩
  · exact fun file hf => (hfile file hf).2.2

/-- The other daemons have other process ids. -/
theorem Inv.pid_ne (h : Inv s) (hd : s.processes[daemon]? = some process) (halive : process.alive)
    (i : ℕ) (q : Process) (hi : i ≠ daemon) (hq : s.processes[i]? = some q) (hqa : q.alive) :
  q.pid ≠ process.pid
  := fun hsame => hi (h.pids i daemon q process hq hd hqa halive hsame)

/-- A daemon comes to a phase in which it owns no other file than before, while the file stays. -/
theorem Inv.quiet (h : Inv s) (hd : s.processes[daemon]? = some process)
    (hpid : process'.pid = process.pid) (halive : process'.alive → process.alive)
    (hphase : ∀ generation, process'.phase.generation = some generation →
      process'.phase = process.phase)
    (hkeep : ∀ generation, process.alive → process.phase ≠ .created generation)
    (hfresh : ∀ file, process'.phase = .checking (some file) ∨
      process'.phase = .removing (some file) → file.generation < s.generations)
    (hchecking : ∀ file pid, process'.phase = .checking (some file) → file.pid = some pid →
      ∀ q ∈ s.processes, q.alive → q.phase.generation = some file.generation → q.pid = pid)
    (hremoving : ∀ seen, process'.phase = .removing seen →
      ∃ file, seen = some file ∧ ¬ Owned s file.generation) :
  Inv { s with processes := s.processes.set daemon process' }
  := by
  have hmem : process ∈ s.processes := mem_of_getElem? hd
  have hput : Puts s.processes daemon process' (s.processes.set daemon process') := puts_set hd
  apply h.put hput
  · exact le_rfl
  · exact fun _ _ _ _ _ _ => rfl
  · intro g hg
    have hold : process.phase.generation = some g := by
      rw [← hphase g hg]
      exact hg
    exact ⟨h.fresh process hmem g hold, .inr ⟨process, hd, hold, hpid.symm, halive⟩⟩
  · intro file hfile
    use h.freshFile file hfile, h.filePid file hfile
    intro hnone
    obtain ⟨q, hq, hqa, hqp⟩ := h.unwritten file hfile hnone
    obtain ⟨i, hi⟩ := mem_iff_getElem?.mp hq
    refine ⟨q, hput.others i q ?_ hi, hqa, hqp⟩
    rintro rfl
    obtain rfl := Option.some.inj (hd.symm.trans hi)
    exact hkeep _ hqa hqp
  · intro ha g hg
    have hsame := hphase g (by simp [hg, Phase.generation])
    exact absurd (hsame.symm.trans hg) (hkeep g (halive ha))
  · intro ha g hg
    have hsame := hphase g (by simp [hg, Phase.generation])
    rw [hpid]
    exact h.holding process hmem (halive ha) g (hsame.symm.trans hg)
  · rw [hpid]
    exact ⟨h.pidNeZero process hmem, fun ha => h.pid_ne hd (halive ha)⟩
  · exact hfresh
  · exact hchecking
  · exact hremoving

/-- The only live daemon that owns a file creates, writes or gives up the lock file. -/
theorem Inv.sole {file : Option File} {generations : ℕ} (h : Inv s)
    (hd : s.processes[daemon]? = some process)
    (hsole : ∀ (i : ℕ) (q : Process), i ≠ daemon → s.processes[i]? = some q → q.alive →
      q.phase.generation = none)
    (hpid : process'.pid = process.pid) (halive : process.alive ∧ process'.alive)
    (hle : s.generations ≤ generations)
    (hfile : ∀ f ∈ file, f.generation < generations ∧ f.pid ≠ some 0 ∧
      (f.pid = none → process'.phase = .created f.generation))
    (hmade : ∀ generation, process'.phase = .created generation → file = some ⟨generation, none⟩)
    (hhold : ∀ generation, process'.phase = .holding generation →
      file = some ⟨generation, some process.pid⟩)
    (hgen : ∀ generation, process'.phase.generation = some generation →
      generation < generations ∧ (process.phase.generation = some generation ∨
        s.generations ≤ generation))
    (hplain : ∀ seen, process'.phase ≠ .checking seen ∧ process'.phase ≠ .removing seen) :
  Inv ⟨file, s.processes.set daemon process', generations⟩
  := by
  have hput : Puts s.processes daemon process' (s.processes.set daemon process') := puts_set hd
  apply h.put hput
  · exact hle
  · exact fun i q hi hq hqa hg => absurd (hsole i q hi hq hqa) hg
  · intro g hg
    obtain ⟨hlt, hold | hnew⟩ := hgen g hg
    · exact ⟨hlt, .inr ⟨process, hd, hold, hpid.symm, fun _ => halive.1⟩⟩
    · exact ⟨hlt, .inl hnew⟩
  · intro f hf
    obtain ⟨hlt, hne, hnone⟩ := hfile f hf
    exact ⟨hlt, hne, fun hno => ⟨process', hput.self, halive.2, hnone hno⟩⟩
  · exact fun _ => hmade
  · rw [hpid]
    exact fun _ => hhold
  · rw [hpid]
    exact ⟨h.pidNeZero process (mem_of_getElem? hd), fun _ => h.pid_ne hd halive.1⟩
  · rintro f (hf | hf)
    · exact absurd hf (hplain _).1
    · exact absurd hf (hplain _).2
  · exact fun f pid hf => absurd hf (hplain _).1
  · exact fun seen hf => absurd hf (hplain _).2

end Replaced

section Steps

variable {s t : State} {daemon : ℕ} {process : Process}

/-- A phase in which a daemon has neither created a file nor read one. -/
theorem Inv.plain (h : Inv s) (hd : s.processes[daemon]? = some process) {phase : Phase}
    (hphase : phase = .opening ∨ phase = .reading ∨ phase = .ended)
    (hkeep : ∀ generation, process.alive → process.phase ≠ .created generation) :
  Inv (s.goto daemon process phase)
  := by
  apply h.quiet hd
  · rfl
  · exact id
  · intro generation hg
    rcases hphase with rfl | rfl | rfl <;> cases hg
  · exact hkeep
  · intro file hf
    rcases hphase with rfl | rfl | rfl <;> simp at hf
  · intro file pid hf
    rcases hphase with rfl | rfl | rfl <;> simp at hf
  · intro seen hf
    rcases hphase with rfl | rfl | rfl <;> simp at hf

/-- While there is no lock file no live daemon owns one. -/
theorem Inv.sole_of_none (h : Inv s) (hfile : s.file = none) {q : Process}
    (hq : q ∈ s.processes) (halive : q.alive) :
  q.phase.generation = none
  := by
  cases hg : q.phase.generation with
  | none => rfl
  | some generation =>
    obtain ⟨pid, hpid⟩ := h.file hq halive hg
    rw [hfile] at hpid
    cases hpid

/-- Where one live daemon owns the lock file the others own none. -/
theorem Inv.sole_of_owner (h : Inv s) (hd : s.processes[daemon]? = some process)
    (halive : process.alive) {generation : ℕ}
    (hgen : process.phase.generation = some generation) {i : ℕ} {q : Process}
    (hi : i ≠ daemon) (hq : s.processes[i]? = some q) (hqa : q.alive) :
  q.phase.generation = none
  := by
  cases hg : q.phase.generation with
  | none => rfl
  | some g =>
  obtain ⟨pid, hpid⟩ := h.file (mem_of_getElem? hq) hqa hg
  obtain ⟨pid', hpid'⟩ := h.file (mem_of_getElem? hd) halive hgen
  have hsame : g = generation := by
    have heq := hpid.symm.trans hpid'
    simp only [Option.some.injEq, File.mk.injEq] at heq
    exact heq.1
  rw [hsame] at hg
  exact absurd (h.unique i daemon q process generation hq hd hg hgen) hi

/-- The next step of a daemon keeps everything in order. -/
theorem Inv.advance (h : Inv s) (hd : s.processes[daemon]? = some process)
    (halive : process.alive) {foreign : Bool} (hok : Orderly s (.next daemon foreign))
    (ht : advance s daemon process foreign = some t) :
  Inv t
  := by
  have hmem : process ∈ s.processes := mem_of_getElem? hd
  cases hphase : process.phase with
  | opening =>
    have hkeep : ∀ generation, process.alive → process.phase ≠ .created generation := by
      intro generation _
      simp [hphase]
    cases hfile : s.file with
    | some file =>
      simp only [DaemonLock.advance, hphase, hfile, Option.some.injEq] at ht
      rw [← ht]
      exact h.plain hd (by simp) hkeep
    | none =>
    simp only [DaemonLock.advance, hphase, hfile, Option.some.injEq] at ht
    rw [← ht]
    apply h.sole hd
    · intro i q _ hq hqa
      exact h.sole_of_none hfile (mem_of_getElem? hq) hqa
    · rfl
    · exact ⟨halive, halive⟩
    · exact Nat.le_succ _
    · rintro f hf
      cases hf
      simp
    · intro generation hg
      obtain rfl : s.generations = generation := by simpa using hg
      rfl
    · intro generation hg
      cases hg
    · intro generation hg
      obtain rfl : s.generations = generation := by simpa [Phase.generation] using hg
      exact ⟨Nat.lt_succ_self _, .inr le_rfl⟩
    · intro seen
      simp
  | created generation =>
    have hfile := h.created process hmem halive generation hphase
    have hg : process.phase.generation = some generation := by rw [hphase]; rfl
    simp only [DaemonLock.advance, hphase, hfile, Option.map_some, if_true, Option.some.injEq] at ht
    rw [← ht]
    have hlt := h.fresh process hmem generation hg
    apply h.sole hd
    · intro i q hi hq hqa
      exact h.sole_of_owner hd halive hg hi hq hqa
    · rfl
    · exact ⟨halive, halive⟩
    · exact le_rfl
    · rintro f hf
      cases hf
      refine ⟨hlt, ?_, ?_⟩
      · simpa using h.pidNeZero process hmem
      · intro hnone
        cases hnone
    · intro g hg'
      cases hg'
    · intro g hg'
      obtain rfl : generation = g := by simpa using hg'
      rfl
    · intro g hg'
      obtain rfl : generation = g := by simpa [Phase.generation] using hg'
      exact ⟨hlt, .inl hg⟩
    · intro seen
      simp
  | reading =>
    simp only [DaemonLock.advance, hphase, Option.some.injEq] at ht
    rw [← ht]
    apply h.quiet hd
    · rfl
    · exact id
    · intro generation hg
      cases hg
    · intro generation _
      simp [hphase]
    · intro file hf
      have hfile : s.file = some file := by simpa using hf
      exact h.freshFile file hfile
    · intro file pid hf hpid q hq hqa hqg
      have hfile : s.file = some file := by simpa using hf
      cases hqp : q.phase with
      | created g =>
        have hq' := h.created q hq hqa g hqp
        rw [hfile] at hq'
        cases hq'
        cases hpid
      | holding g =>
        have hq' := h.holding q hq hqa g hqp
        rw [hfile] at hq'
        cases hq'
        exact Option.some.inj hpid
      | opening | reading | checking seen | removing seen | ended =>
        simp [hqp, Phase.generation] at hqg
    · intro seen hf
      simp at hf
  | checking seen =>
    have hkeep : ∀ generation, process.alive → process.phase ≠ .created generation := by
      intro generation _
      simp [hphase]
    simp only [DaemonLock.advance, hphase] at ht
    split_ifs at ht with hrunning
    · cases ht
      exact h.plain hd (by simp) hkeep
    cases ht
    -- a daemon that takes the file for stale has read a process id that is not in use
    have hread : ∃ file pid, seen = some file ∧ file.pid = some pid ∧
        (s.runs pid → pid = process.pid) := by
      rw [not_and_not_right] at hrunning
      cases hpid : seen.bind (·.pid) with
      | none =>
        rw [hpid] at hrunning
        exact absurd (hrunning rfl).symm (h.pidNeZero process hmem)
      | some pid =>
      obtain ⟨file, rfl, hfile⟩ := Option.bind_eq_some_iff.mp hpid
      refine ⟨file, pid, rfl, hfile, ?_⟩
      intro hruns
      rw [hpid, Option.getD_some] at hrunning
      apply hrunning
      simp [State.ownerAlive, hruns]
    obtain ⟨file, pid, rfl, hpid, hfree⟩ := hread
    have hnone : ¬ Owned s file.generation := by
      rintro ⟨q, hq, hqa, hqg⟩
      have hqpid := h.checking process hmem file pid hphase hpid q hq hqa hqg
      have hruns : s.runs pid := by
        rw [State.runs, any_eq_true]
        exact ⟨q, hq, by simp [hqa, hqpid]⟩
      obtain ⟨i, hi⟩ := mem_iff_getElem?.mp hq
      obtain rfl := h.pids i daemon q process hi hd hqa halive (hqpid.trans (hfree hruns))
      obtain rfl := Option.some.inj (hi.symm.trans hd)
      rw [hphase] at hqg
      cases hqg
    apply h.quiet hd
    · rfl
    · exact id
    · intro generation hg
      cases hg
    · exact hkeep
    · intro file' hf
      obtain rfl : file = file' := by simpa using hf
      exact h.freshSeen process hmem file (.inl hphase)
    · intro file' pid' hf
      simp at hf
    · intro seen hf
      obtain rfl : some file = seen := by simpa using hf
      exact ⟨file, rfl, hnone⟩
  | removing seen =>
    obtain ⟨file, rfl, hnone⟩ := h.removing process hmem seen hphase
    simp only [DaemonLock.advance, hphase, Option.some.injEq] at ht
    rw [← ht]
    have hsole : ∀ (i : ℕ) (q : Process), i ≠ daemon → s.processes[i]? = some q → q.alive →
        q.phase.generation = none := by
      intro i q _ hq hqa
      cases hg : q.phase.generation with
      | none => rfl
      | some g =>
      -- the lock file is that of `q`, so it is neither the one read nor of nobody
      obtain ⟨pid, hfile⟩ := h.file (mem_of_getElem? hq) hqa hg
      have howned : Owned s g := ⟨q, mem_of_getElem? hq, hqa, hg⟩
      obtain ⟨ppid, pa, pp⟩ := process
      obtain rfl : pa := halive
      obtain rfl : pp = .removing (some file) := hphase
      simp only [Orderly, hd] at hok
      rcases hok _ hfile with hread | hfree
      · obtain rfl : file.generation = g := by simpa using hread
        exact absurd howned hnone
      · exact absurd howned hfree
    apply h.sole hd hsole
    · rfl
    · exact ⟨halive, halive⟩
    · exact le_rfl
    · intro f hf
      cases hf
    · intro generation hg
      cases hg
    · intro generation hg
      cases hg
    · intro generation hg
      cases hg
    · intro seen
      simp
  | holding generation | ended => simp [DaemonLock.advance, hphase] at ht

/-- A new daemon keeps everything in order. -/
theorem Inv.spawn (h : Inv s) {pid : ℕ} (hne : pid ≠ 0) (hfree : s.runs pid = false) :
  Inv { s with processes := s.processes ++ [⟨pid, true, .opening⟩] }
  := by
  apply h.put (puts_append s.processes ⟨pid, true, .opening⟩)
  · exact le_rfl
  · exact fun _ _ _ _ _ _ => rfl
  · rintro generation ⟨⟩
  · intro file hfile
    use h.freshFile file hfile, h.filePid file hfile
    intro hnone
    obtain ⟨q, hq, hqa, hqp⟩ := h.unwritten file hfile hnone
    exact ⟨q, mem_append_left _ hq, hqa, hqp⟩
  · rintro - generation ⟨⟩
  · rintro - generation ⟨⟩
  · refine ⟨hne, ?_⟩
    rintro - i q - hq hqa rfl
    rw [State.runs, any_eq_false] at hfree
    exact hfree q (mem_of_getElem? hq) (by simp [hqa])
  · rintro file (hf | hf)
    · cases hf
    · cases hf
  · rintro file pid ⟨⟩
  · rintro seen ⟨⟩

/-- Every step that is in order keeps everything in order. -/
theorem Inv.step (h : Inv s) {action : Action} (hok : Orderly s action)
    (ht : step s action = some t) :
  Inv t
  := by
  cases action with
  | spawn pid =>
    simp only [DaemonLock.step, Option.ite_none_left_eq_some, not_or, Option.some.injEq] at ht
    obtain ⟨⟨hne, hfree⟩, rfl⟩ := ht
    exact h.spawn hne (by simpa using hfree)
  | next daemon foreign =>
    cases hd : s.processes[daemon]? with
    | none => simp [DaemonLock.step, hd] at ht
    | some process =>
      simp only [DaemonLock.step, hd, Option.ite_none_right_eq_some] at ht
      exact h.advance hd ht.1 hok ht.2
  | writeFails daemon => exact absurd hok id
  | release daemon =>
    rcases hd : s.processes[daemon]? with _ | ⟨pid, alive, phase⟩
    · simp [DaemonLock.step, hd] at ht
    cases alive with
    | false => simp [DaemonLock.step, hd] at ht
    | true =>
    cases phase with
    | holding generation =>
      simp only [DaemonLock.step, hd, Option.some.injEq] at ht
      rw [← ht]
      apply h.sole hd
      · intro i q hi hq hqa
        exact h.sole_of_owner hd rfl rfl hi hq hqa
      · rfl
      · exact ⟨rfl, rfl⟩
      · exact le_rfl
      · intro f hf
        cases hf
      · intro g hg
        cases hg
      · intro g hg
        cases hg
      · intro g hg
        cases hg
      · intro seen
        simp
    | _ => simp [DaemonLock.step, hd] at ht
  | crash daemon =>
  cases hd : s.processes[daemon]? with
  | none => simp [DaemonLock.step, hd] at ht
  | some process =>
  have hmem : process ∈ s.processes := mem_of_getElem? hd
  simp only [DaemonLock.step, hd, Option.some.injEq] at ht
  rw [← ht]
  apply h.quiet hd
  · rfl
  · intro habs
    cases habs
  · intro generation _
    rfl
  · intro generation halive hphase
    obtain ⟨pid, alive, phase⟩ := process
    obtain rfl : alive := halive
    obtain rfl : phase = .created generation := hphase
    simp [Orderly, hd] at hok
  · exact fun file hf => h.freshSeen process hmem file hf
  · exact fun file pid hf => h.checking process hmem file pid hf
  · exact fun seen hf => h.removing process hmem seen hf

end Steps

/-! ### A daemon that boots alone -/

section Boot

variable {processes : List Process} {pid generations : ℕ} {file : Option File} {phase : Phase}

/-- A new daemon in a phase, after the daemons there were. -/
def booting (processes : List Process) (pid : ℕ) (file : Option File) (generations : ℕ)
    (phase : Phase) : State :=
  ⟨file, processes ++ [⟨pid, true, phase⟩], generations⟩

/-- The next step of the new daemon. -/
theorem next_booting :
  step (booting processes pid file generations phase) (.next processes.length false) =
    advance (booting processes pid file generations phase) processes.length ⟨pid, true, phase⟩
      false
  := by
  simp [step, booting]

/-- The new daemon comes to another phase. -/
theorem goto_booting {next : Phase} :
  (booting processes pid file generations phase).goto processes.length ⟨pid, true, phase⟩ next =
    booting processes pid file generations next
  := by
  simp [State.goto, booting]

/-- The new daemon makes a step. -/
theorem bootAlone_step {s t : State} {daemon k : ℕ} (h : step s (.next daemon false) = some t) :
  bootAlone daemon (k + 1) s = bootAlone daemon k t
  := by
  rw [bootAlone, h]

/-- Without a lock file the new daemon gets the lock. -/
theorem boot_none (processes : List Process) (pid generations k : ℕ) :
  Holds (bootAlone processes.length (k + 2) (booting processes pid none generations .opening))
    processes.length
  := by
  have hopen : step (booting processes pid none generations .opening)
      (.next processes.length false) =
      some (booting processes pid (some ⟨generations, none⟩) (generations + 1)
        (.created generations)) := by
    rw [next_booting]
    simp only [advance, goto_booting]
    rfl
  have hwrite : step (booting processes pid (some ⟨generations, none⟩) (generations + 1)
      (.created generations)) (.next processes.length false) =
      some (booting processes pid (some ⟨generations, some pid⟩) (generations + 1)
        (.holding generations)) := by
    rw [next_booting]
    simp only [advance, goto_booting]
    simp [booting]
  have hdone : bootAlone processes.length k (booting processes pid (some ⟨generations, some pid⟩)
      (generations + 1) (.holding generations)) =
      booting processes pid (some ⟨generations, some pid⟩) (generations + 1)
        (.holding generations) := by
    cases k with
    | zero => rfl
    | succ k =>
      rw [bootAlone, next_booting]
      rfl
  rw [bootAlone_step hopen, bootAlone_step hwrite, hdone]
  exact ⟨⟨pid, true, .holding generations⟩, by simp [booting], rfl, generations, rfl⟩

/-- A lock file with the process id of no other live daemon is removed, and the new daemon gets
the lock. -/
theorem boot_stale (pid generations : ℕ) {f : File} {owner : ℕ} (hpid : f.pid = some owner) (hne : owner ≠ 0)
    (hgone : ∀ s : State, s.processes = processes → s.runs owner = false) :
  Holds (bootAlone processes.length 6 (booting processes pid (some f) generations .opening))
    processes.length
  := by
  have hopen : step (booting processes pid (some f) generations .opening)
      (.next processes.length false) =
      some (booting processes pid (some f) generations .reading) := by
    rw [next_booting]
    simp only [advance, goto_booting]
    rfl
  have hread : step (booting processes pid (some f) generations .reading)
      (.next processes.length false) =
      some (booting processes pid (some f) generations (.checking (some f))) := by
    rw [next_booting]
    simp only [advance, goto_booting]
    rfl
  have hcheck : step (booting processes pid (some f) generations (.checking (some f)))
      (.next processes.length false) =
      some (booting processes pid (some f) generations (.removing (some f))) := by
    have hdead : ¬ ((booting processes pid (some f) generations
        (.checking (some f))).ownerAlive owner false ∧ owner ≠ pid) := by
      rintro ⟨halive, hother⟩
      have hruns := hgone ⟨none, processes, generations⟩ rfl
      simp only [State.runs] at hruns
      simp [State.ownerAlive, State.runs, booting, hruns, Ne.symm hother] at halive
      omega
    rw [next_booting]
    simp only [advance, goto_booting, Option.bind_some, hpid, Option.getD_some]
    rw [if_neg hdead]
  have hremove : step (booting processes pid (some f) generations (.removing (some f)))
      (.next processes.length false) =
      some (booting processes pid none generations .opening) := by
    rw [next_booting]
    simp only [advance, goto_booting]
    rfl
  rw [bootAlone_step hopen, bootAlone_step hread, bootAlone_step hcheck, bootAlone_step hremove]
  apply boot_none

end Boot

/-- Where everything is in order at most one live daemon holds the lock, and one that boots while
none does gets it. -/
theorem Inv.single {s : State} (h : Inv s) :
  Single s
  := by
  constructor
  · rintro p q ⟨P, hp, hpa, g, hpg⟩ ⟨Q, hq, hqa, g', hqg⟩
    by_contra hne
    have howner : Q.phase.generation = some g' := by
      rw [hqg]
      rfl
    have hnone := h.sole_of_owner hq hqa howner hne hp hpa
    rw [hpg] at hnone
    cases hnone
  intro hfree hgone pid t ht
  simp only [DaemonLock.step, Option.ite_none_left_eq_some, Option.some.injEq] at ht
  obtain ⟨-, rfl⟩ := ht
  cases hfile : s.file with
  | none =>
    exact boot_none s.processes pid s.generations 4
  | some f =>
  -- a file without a process id is one that a live daemon has yet to write
  cases hpid : f.pid with
  | none =>
    obtain ⟨q, hq, hqa, hqp⟩ := h.unwritten f hfile hpid
    exact absurd ⟨q, hq, hqa, by rw [hqp]; rfl⟩ (hfree f.generation)
  | some owner =>
  have hne : owner ≠ 0 := by
    rintro rfl
    exact h.filePid f hfile hpid
  have hruns : ∀ u : State, u.processes = s.processes → u.runs owner = false := by
    intro u hu
    have hruns := hgone f hfile owner hpid
    rw [State.runs] at hruns ⊢
    rw [hu]
    exact hruns
  exact boot_stale pid s.generations hpid hne hruns

/-- In every run in which a daemon removes no lock file but the one it has read, or one of
nobody, and none stops between creating the lock file and having written it, at most one
live daemon holds the lock at any time, and one that boots while none does gets it. -/
theorem single_of_orderly (actions : List Action) (t : State)
    (hok : Guarded step Orderly initial actions) (hrun : run step initial actions = some t) :
  Single t
  := by
  apply Inv.single
  apply Guarded.invariant (I := Inv) (fun s a u hs ha hu => hs.step ha hu) _ hok hrun
  constructor
  all_goals simp [initial]

theorem single_of_orderly_takeover :
  Guarded step Orderly initial [.spawn 7, .next 0 false, .next 0 false, .crash 0, .spawn 8,
    .next 1 false, .next 1 false, .next 1 false, .next 1 false, .next 1 false, .next 1 false] ∧
  Single ⟨some ⟨1, some 8⟩, [⟨7, false, .holding 0⟩, ⟨8, true, .holding 1⟩], 2⟩
  := by
  have hok : Guarded step Orderly initial [.spawn 7, .next 0 false, .next 0 false, .crash 0,
      .spawn 8, .next 1 false, .next 1 false, .next 1 false, .next 1 false, .next 1 false,
      .next 1 false] := by
    simp [Guarded, Orderly, step, initial, State.runs, advance, State.goto, State.ownerAlive]
  exact ⟨hok, single_of_orderly _ _ hok rfl⟩

/-- Two daemons that both find the lock of a crashed one take it over both, and a daemon that
crashes before it has written the file leaves one that no daemon ever removes. -/
theorem not_single :
  (∃ s, run step initial [.spawn 7, .next 0 false, .next 0 false, .crash 0, .spawn 8, .spawn 9,
      .next 1 false, .next 1 false, .next 1 false, .next 2 false, .next 2 false, .next 2 false,
      .next 1 false, .next 1 false, .next 1 false, .next 2 false, .next 2 false,
      .next 2 false] = some s ∧ Holds s 1 ∧ Holds s 2) ∧
  (∃ s, run step initial [.spawn 7, .next 0 false, .crash 0] = some s ∧ ¬ Single s)
  := by
  constructor
  · refine ⟨_, rfl, ?_, ?_⟩
    · exact ⟨⟨8, true, .holding 1⟩, rfl, rfl, 1, rfl⟩
    · exact ⟨⟨9, true, .holding 2⟩, rfl, rfl, 2, rfl⟩
  refine ⟨_, rfl, ?_⟩
  intro h
  have hfree : ∀ generation, ¬ Owned ⟨some ⟨0, none⟩, [⟨7, false, .created 0⟩], 1⟩
      generation := by
    rintro generation ⟨q, hq, hqa, -⟩
    obtain rfl := mem_singleton.mp hq
    cases hqa
  have hboot := h.recovers hfree (by rintro file ⟨⟩ owner ⟨⟩) 8 _ rfl
  obtain ⟨process, hprocess, -, generation, hphase⟩ := hboot
  have hended : (bootAlone 1 6 ⟨some ⟨0, none⟩, [⟨7, false, .created 0⟩,
      ⟨8, true, .opening⟩], 1⟩).processes[1]? = some ⟨8, true, .ended⟩ := rfl
  obtain rfl := Option.some.inj (hended.symm.trans hprocess)
  cases hphase

end DaemonLock
