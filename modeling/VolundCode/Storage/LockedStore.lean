import VolundCode.Lib.Ownership
import VolundCode.Lib.Run

/-!
# Stores behind a lock file

The task store and the repositories of memories take a lock file before they load, and remove it
after they have saved. A call creates the lock file, which must not exist yet, and writes its
process id and a token into it. One that finds a file reads it, looks whether the owner runs, and
removes the file if it does not. The two stores differ in what they make of a file that cannot be
read: the task store takes it for that of a dead process, and the repositories do so once it is a
second old.

Each file operation is a step of its own, the steps of any number of calls of any number of
processes interleave, and a process can crash between any two of them. Where no call removes a lock
file that a live call has created and not given up, the critical sections do not overlap
(`Inv.exclusive`), the content of the store is what the sections have written one after the other,
and a call that has returned has written all that it was to write (`Inv.complete`).
-/

namespace Storage.LockedStore

open Ownership Run List Function

/-! ### Stores -/

/-- A store: what an operation writes, given what it has loaded, in the order in which it writes,
`none` where it throws; what it still writes where one of these fails; and whether a lock file that
cannot be read is given time. -/
structure Store where
  Content : Type
  Op : Type
  Write : Type
  perform : Write → Content → Content
  plan : Op → Content → Option (List Write)
  recover : Write → List Write
  grace : Bool

/-- The content after these have been written. -/
def Store.performs (S : Store) (writes : List S.Write) (content : S.Content) : S.Content :=
  writes.foldl (fun content write => S.perform write content) content

@[simp]
theorem performs_append (S : Store) (ws ws' : List S.Write) (content : S.Content) :
  S.performs (ws ++ ws') content = S.performs ws' (S.performs ws content)
  := foldl_append

/-- The calls and processes of a system: the process of a call, its operation, and the process id of
a process. The token of a call is its number. -/
structure World (S : Store) where
  procOf : ℕ → ℕ
  pidOf : ℕ → ℕ
  op : ℕ → S.Op

/-! ### Calls -/

/-- What a call writes into the lock file. -/
structure Owner where
  pid : ℕ
  token : ℕ
  deriving DecidableEq, Repr

/-- The lock file: which of the files that came to the path it is, what can be read from it, and
when it was last written. There is nothing to read from one that is empty or written in part. -/
structure LockFile where
  number : ℕ
  owner : Option Owner
  mtime : ℤ
  deriving DecidableEq, Repr

/-- Where a call stands: not begun; about to open the lock file, to write the one it has created, to
sync, to close, or to remove it after an error; to read the one that exists, to look for its owner,
to look how old it is, to remove it, or to wait; about to load; saving, with what it has loaded,
what it has yet to write, and whether something has failed; about to read the lock file back, or to
remove it, with whether the operation has succeeded; or over. -/
inductive Phase (S : Store) where
  | idle
  | opening
  | created (number : ℕ)
  | syncing (number : ℕ)
  | closing (number : ℕ)
  | discarding (number : ℕ)
  | reading
  | probing (pid : ℕ)
  | aging
  | removing
  | polling
  | loading (number : ℕ)
  | saving (number : ℕ) (loaded : S.Content) (rest : List S.Write) (failed : Bool)
  | releasing (number : ℕ) (succeeded : Bool)
  | unlocking (number : ℕ) (succeeded : Bool)
  | ended

/-- What a call has written. -/
structure Section (S : Store) where
  call : ℕ
  writes : List S.Write

/-- The lock file and the number of them so far, the clock, the processes that run, the calls that
have begun and where each stands, the content of the store, what the calls have written, in the
order in which they have loaded, and which calls have returned without an error. -/
structure State (S : Store) where
  lock : Option LockFile
  next : ℕ
  now : ℤ
  running : List ℕ
  begun : List ℕ
  phase : ℕ → Phase S
  content : S.Content
  sections : List (Section S)
  returned : List ℕ

/-- What can happen. `next` is the next file operation of a call; `foreign` says whether some other
process runs under the process id it looks for. `fails` is one that throws, `transient` one that
throws what counts as contention, and `timeout` a deadline that has passed. -/
inductive Action where
  | spawn (process : ℕ)
  | crash (process : ℕ)
  | clock (now : ℤ)
  | begin (call : ℕ)
  | next (call : ℕ) (foreign : Bool)
  | fails (call : ℕ)
  | transient (call : ℕ)
  | timeout (call : ℕ)
  deriving DecidableEq, Repr

variable {S : Store}

/-- A call comes to a phase. -/
def State.goto (s : State S) (call : ℕ) (phase : Phase S) : State S :=
  { s with phase := Function.update s.phase call phase }

/-- A call returns, or throws if it has not succeeded. -/
def State.finish (s : State S) (call : ℕ) (succeeded : Bool) : State S :=
  { s.goto call .ended with returned := if succeeded then s.returned ++ [call] else s.returned }

/-- A call has written something. -/
def State.write (s : State S) (call : ℕ) (write : S.Write) : State S :=
  { s with
    content := S.perform write s.content
    sections := s.sections.map fun sec =>
      if sec.call = call then { sec with writes := sec.writes ++ [write] } else sec }

section Steps

variable (W : World S)

/-- Some process runs under the process id. -/
def State.runs (s : State S) (pid : ℕ) : Bool :=
  s.running.any fun process => W.pidOf process = pid

/-- What follows the judgement that the owner of the lock file is dead, or alive. -/
def judged (alive : Bool) : Phase S :=
  if alive then .polling else .removing

/-- What follows a lock file that cannot be read. -/
def unreadable : Phase S :=
  if S.grace then .aging else .removing

/-- The next file operation of a call. -/
def advance (s : State S) (call : ℕ) (foreign : Bool) : Option (State S) :=
  match s.phase call with
  | .opening =>
    match s.lock with
    | none =>
      some { s.goto call (.created s.next) with
        lock := some ⟨s.next, none, s.now⟩
        next := s.next + 1 }
    | some _ => some (s.goto call .reading)
  | .created number =>
    -- the handle is of the file that was created, whatever is at the path by now
    let lock := s.lock.map fun file =>
      if file.number = number then
        { file with owner := some ⟨W.pidOf (W.procOf call), call⟩, mtime := s.now }
      else file
    some { s.goto call (.syncing number) with lock := lock }
  | .syncing number => some (s.goto call (.closing number))
  | .closing number => some (s.goto call (.loading number))
  | .discarding _ => some { s.goto call .ended with lock := none }
  | .reading =>
    match s.lock with
    | none => some (s.goto call .removing)
    | some file =>
      match file.owner with
      | none => some (s.goto call unreadable)
      | some owner =>
        if owner.pid < 1 then some (s.goto call .aging)
        else some (s.goto call (.probing owner.pid))
  | .probing pid => some (s.goto call (judged (s.runs W pid || foreign)))
  | .aging =>
    match s.lock with
    | none => some (s.goto call .removing)
    | some file => some (s.goto call (judged (s.now - file.mtime < 1000)))
  | .removing => some { s.goto call .opening with lock := none }
  | .polling => some (s.goto call .opening)
  | .loading number =>
    match S.plan (W.op call) s.content with
    | none => some (s.goto call (.releasing number false))
    | some writes =>
      some { s.goto call (.saving number s.content writes false) with
        sections := s.sections ++ [⟨call, []⟩] }
  | .saving number _ [] failed => some (s.goto call (.releasing number !failed))
  | .saving number loaded (write :: rest) failed =>
    some ((s.write call write).goto call (.saving number loaded rest failed))
  | .releasing number succeeded =>
    match s.lock with
    | none => some (s.finish call succeeded)
    | some file =>
      match file.owner with
      | none => some (s.goto call .ended)
      | some owner =>
        if owner.token = call then some (s.goto call (.unlocking number succeeded))
        else some (s.finish call succeeded)
  | .unlocking _ succeeded => some { s.finish call succeeded with lock := none }
  | .idle | .ended => none

/-- Where a call is whose file operation has thrown. -/
def Phase.failed : Phase S → Option (Phase S)
  | .opening | .closing _ | .discarding _ | .removing | .releasing _ _ | .unlocking _ _ =>
    some .ended
  | .created number | .syncing number => some (.discarding number)
  | .reading => some unreadable
  | .aging => some .removing
  | .loading number => some (.releasing number false)
  | .saving number loaded (write :: rest) failed =>
    some (.saving number loaded (if failed then rest else S.recover write) true)
  | _ => none

/-- A step of the system. A new process runs under a process id that no live one has. -/
def step (s : State S) : Action → Option (State S)
  | .spawn process =>
    if s.runs W (W.pidOf process) then none
    else some { s with running := process :: s.running }
  | .crash process =>
    some { s with
      running := s.running.filter fun other => other ≠ process
      phase := fun call => if W.procOf call = process then .ended else s.phase call }
  | .clock now => some { s with now := now }
  | .begin call =>
    match s.phase call with
    | .idle =>
      if W.procOf call ∈ s.running then
        some { s.goto call .opening with begun := call :: s.begun }
      else none
    | _ => none
  | .next call foreign => advance W s call foreign
  | .fails call => (s.phase call).failed.map (s.goto call)
  | .transient call =>
    match s.phase call with
    | .opening => some (s.goto call .polling)
    | .removing => some (s.goto call .opening)
    | .unlocking _ succeeded => some (s.finish call succeeded)
    | _ => none
  | .timeout call =>
    match s.phase call with
    | .polling => some (s.goto call .ended)
    | _ => none

end Steps

/-- Nothing has happened to a store of this content. -/
def initial (content : S.Content) : State S where
  lock := none
  next := 0
  now := 0
  running := []
  begun := []
  phase _ := .idle
  content := content
  sections := []
  returned := []

/-! ### Exclusion -/

/-- The lock file that a call has created and not given up. -/
def Phase.owned : Phase S → Option ℕ
  | .created number | .syncing number | .closing number | .discarding number | .loading number
  | .saving number _ _ _ | .releasing number _ | .unlocking number _ => some number
  | _ => none

/-- A call is in its critical section: between taking the lock and giving it up. -/
def Phase.critical : Phase S → Bool
  | .loading _ | .saving _ _ _ _ | .releasing _ _ | .unlocking _ _ => true
  | _ => false

/-- The critical sections of live processes do not overlap. -/
def Exclusive (s : State S) : Prop :=
  ∀ c d, (s.phase c).critical → (s.phase d).critical → c = d

/-- A call that takes the owner of the lock file for dead removes none that a live call has created
and not given up. -/
def Undisturbed (s : State S) : Action → Prop
  | .next call _ =>
    match s.phase call with
    | .removing => ∀ file ∈ s.lock, ∀ other ∈ s.begun, (s.phase other).owned ≠ some file.number
    | _ => True
  | _ => True

/-- A call is about to remove the lock file. -/
def Phase.removes : Phase S → Bool
  | .removing => true
  | _ => false

theorem undisturbed_next_iff {s : State S} {call : ℕ} {foreign : Bool} :
  Undisturbed s (.next call foreign) ↔ ((s.phase call).removes →
    ∀ file ∈ s.lock, ∀ other ∈ s.begun, (s.phase other).owned ≠ some file.number)
  := by
  rw [Undisturbed]
  cases s.phase call with
  | removing =>
    constructor
    · intro h _
      apply h
    · intro h
      apply h rfl
  | _ =>
  constructor
  · intro _ h
    contradiction
  · intro _
    exact True.intro

instance Undisturbed.decidable (s : State S) : ∀ a, Decidable (Undisturbed s a)
  | .next _ _ => decidable_of_iff _ undisturbed_next_iff.symm
  | .spawn _ | .crash _ | .clock _ | .begin _ | .fails _ | .transient _ | .timeout _ =>
    isTrue True.intro

/-! ### What the sections write -/

/-- What a call has written of a plan, and what it has yet to write, once something may have
failed. -/
inductive Attempt (plan : List S.Write) : List S.Write → List S.Write → Bool → Prop
  | start : Attempt plan [] plan false
  | write {done rest : List S.Write} {write : S.Write} {failed : Bool}
      (h : Attempt plan done (write :: rest) failed) : Attempt plan (done ++ [write]) rest failed
  | fail {done rest : List S.Write} {write : S.Write}
      (h : Attempt plan done (write :: rest) false) : Attempt plan done (S.recover write) true
  | failAgain {done rest : List S.Write} {write : S.Write}
      (h : Attempt plan done (write :: rest) true) : Attempt plan done rest true

variable {failed : Bool}

/-- A call in which nothing has failed has written what it has not yet to write. -/
theorem Attempt.append_eq {plan done rest : List S.Write}
    (h : Attempt plan done rest failed) (hfail : failed = false) :
  done ++ rest = plan
  := by
  induction h with
  | start => rfl
  | write h ih => rw [← ih hfail, append_assoc, singleton_append]
  | fail h ih | failAgain h ih => contradiction

variable (W : World S) (content₀ : S.Content)

/-- The content after sections that have been executed one after the other, each on what it has
loaded. -/
inductive Serial : List (Section S) → S.Content → Prop
  | nil : Serial [] content₀
  | snoc {past : List (Section S)} {loaded : S.Content} {call : ℕ}
      {plan done rest : List S.Write} {failed : Bool} (h : Serial past loaded)
      (hplan : S.plan (W.op call) loaded = some plan) (hatt : Attempt plan done rest failed) :
    Serial (past ++ [⟨call, done⟩]) (S.performs done loaded)

/-- A call has written all that it was to write on what it has loaded, after the sections before
it. -/
def Complete (sections : List (Section S)) (call : ℕ) : Prop :=
  ∃ past writes rest loaded, sections = past ++ ⟨call, writes⟩ :: rest ∧
    Serial W content₀ past loaded ∧ S.plan (W.op call) loaded = some writes

variable {W content₀}

theorem Complete.append {sections : List (Section S)} {call : ℕ}
    (h : Complete W content₀ sections call) (more : List (Section S)) :
  Complete W content₀ (sections ++ more) call
  := by
  obtain ⟨past, writes, rest, loaded, rfl, hser, hplan⟩ := h
  use past, writes, rest ++ more, loaded
  rw [append_assoc, cons_append]
  use rfl, hser, hplan

/-- A call that is not the last is complete among those before the last. -/
theorem Complete.of_concat {past : List (Section S)} {last : Section S} {call : ℕ}
    (h : Complete W content₀ (past ++ [last]) call) (hcall : call ≠ last.call) :
  Complete W content₀ past call
  := by
  obtain ⟨before, writes, rest, loaded, heq, hser, hplan⟩ := h
  rcases eq_nil_or_concat rest with rfl | ⟨rest, sec, rfl⟩
  · obtain ⟨-, hlast⟩ := append_inj' heq rfl
    apply absurd _ hcall
    rw [singleton_inj.mp hlast]
  · rw [concat_eq_append, ← cons_append, ← append_assoc] at heq
    obtain ⟨rfl, -⟩ := append_inj' heq rfl
    use before, writes, rest, loaded

/-- Sections without a call are left as they are when it writes. -/
theorem map_write_of_ne {sections : List (Section S)} {call : ℕ} {write : S.Write}
    (h : ∀ sec ∈ sections, sec.call ≠ call) :
  (sections.map fun sec =>
    if sec.call = call then { sec with writes := sec.writes ++ [write] } else sec) = sections
  := by
  conv_rhs => rw [← map_id sections]
  apply map_congr_left
  intro sec hsec
  rw [if_neg (h sec hsec), id]

/-! ### What every step preserves -/

/-- The operation of a call has succeeded, and the call gives up the lock. -/
def Phase.succeeded : Phase S → Bool
  | .releasing _ succeeded | .unlocking _ succeeded => succeeded
  | _ => false

/-- A call has loaded, or is over. -/
def Phase.late : Phase S → Bool
  | .saving _ _ _ _ | .releasing _ _ | .unlocking _ _ | .ended => true
  | _ => false

/-- A call saves. -/
def Phase.saves : Phase S → Bool
  | .saving _ _ _ _ => true
  | _ => false

/-- A call is under way. -/
def Phase.active : Phase S → Bool
  | .idle | .ended => false
  | _ => true

variable {n : ℕ}

theorem active_of_owned {phase : Phase S} (h : phase.owned = some n) :
  phase.active
  := by
  cases phase <;> first | contradiction | rfl

theorem owned_of_critical {phase : Phase S} (h : phase.critical) :
  ∃ n, phase.owned = some n
  := by
  cases phase <;> first | contradiction | exact ⟨_, rfl⟩

variable (W content₀)

/-- What a call writes that saves comes last, after the sections before it. -/
def Saves (s : State S) (call : ℕ) (loaded : S.Content) (rest : List S.Write) (failed : Bool) :
    Prop :=
  ∃ past writes plan, s.sections = past ++ [⟨call, writes⟩] ∧
    (∀ sec ∈ past, sec.call ≠ call) ∧ Serial W content₀ past loaded ∧
    S.plan (W.op call) loaded = some plan ∧ Attempt plan writes rest failed ∧
    s.content = S.performs writes loaded

/-- The lock file is that of the live call that has created one and not given it up, what the calls
have written is what sections write one after the other, and the calls that have returned have
written all that they were to write. -/
structure Inv (s : State S) : Prop where
  sole : Sole (s.lock.map LockFile.number) (fun c => (s.phase c).owned) s.next
  begun : ∀ c, (s.phase c).active → c ∈ s.begun
  late : ∀ sec ∈ s.sections, (s.phase sec.call).late
  serial : Serial W content₀ s.sections s.content
  saves : ∀ c n loaded rest failed, s.phase c = .saving n loaded rest failed →
    Saves W content₀ s c loaded rest failed
  complete : ∀ c, (s.phase c).succeeded ∨ c ∈ s.returned → Complete W content₀ s.sections c
  ended : ∀ c ∈ s.returned, s.phase c = .ended

theorem inv_initial :
  Inv W content₀ (initial content₀)
  := by
  constructor
  · apply Sole.empty
  · intro c h
    contradiction
  · intro sec h
    contradiction
  · apply Serial.nil
  · intro c n loaded rest failed h
    contradiction
  · rintro c (h | h)
    all_goals contradiction
  · intro c h
    contradiction

variable {W content₀} {s t : State S} {call : ℕ}

theorem Inv.exclusive (h : Inv W content₀ s) :
  Exclusive s
  := by
  intro c d hc hd
  obtain ⟨m, hm⟩ := owned_of_critical hc
  obtain ⟨n, hn⟩ := owned_of_critical hd
  apply h.sole.eq hm hn

/-- What the calls own, after one of them comes to a phase. -/
theorem owned_update (phase : ℕ → Phase S) (call : ℕ) (new : Phase S) :
  (fun c => (Function.update phase call new c).owned) =
    Function.update (fun c => (phase c).owned) call new.owned
  := by
  funext c
  by_cases hc : c = call
  · subst hc
    rw [update_self, update_self]
  · rw [update_of_ne hc, update_of_ne hc]

variable {new : Phase S}

/-- A call comes to a phase, and keeps the invariant if it fits what the calls write, and the others
still do. -/
theorem Inv.put (h : Inv W content₀ s) (hphase : t.phase = Function.update s.phase call new)
    (hsole : Sole (t.lock.map LockFile.number)
      (Function.update (fun c => (s.phase c).owned) call new.owned) t.next)
    (hbegun : ∀ c ∈ s.begun, c ∈ t.begun) (hact : new.active → call ∈ t.begun)
    (hlate : ∀ sec ∈ t.sections, sec.call = call ∧ new.late ∨ sec.call ≠ call ∧ sec ∈ s.sections)
    (hser : Serial W content₀ t.sections t.content)
    (hsaves : ∀ n loaded rest failed, new = .saving n loaded rest failed →
      Saves W content₀ t call loaded rest failed)
    (hoth : ∀ c ≠ call, ∀ n loaded rest failed, s.phase c = .saving n loaded rest failed →
      Saves W content₀ t c loaded rest failed)
    (hcompl : new.succeeded ∨ call ∈ t.returned → Complete W content₀ t.sections call)
    (hkept : ∀ c ≠ call, Complete W content₀ s.sections c → Complete W content₀ t.sections c)
    (hret : ∀ c ∈ t.returned, c = call ∧ new = .ended ∨ c ≠ call ∧ c ∈ s.returned) :
  Inv W content₀ t
  := by
  have hself : t.phase call = new := by rw [hphase, Function.update_self]
  have hother (c : ℕ) (hc : c ≠ call) : t.phase c = s.phase c := by
    rw [hphase, Function.update_of_ne hc]
  constructor
  · rw [hphase, owned_update]
    apply hsole
  · intro c hc
    by_cases hcall : c = call
    · subst hcall
      rw [hself] at hc
      apply hact hc
    · rw [hother c hcall] at hc
      apply hbegun c (h.begun c hc)
  · intro sec hsec
    rcases hlate sec hsec with ⟨hcall, hnew⟩ | ⟨hcall, hold⟩
    · rw [hcall, hself, hnew]
    · rw [hother _ hcall]
      apply h.late sec hold
  · apply hser
  · intro c n loaded rest failed hc
    by_cases hcall : c = call
    · subst hcall
      rw [hself] at hc
      apply hsaves n loaded rest failed hc
    · rw [hother c hcall] at hc
      apply hoth c hcall n loaded rest failed hc
  · intro c hc
    by_cases hcall : c = call
    · subst hcall
      rw [hself] at hc
      apply hcompl hc
    apply hkept c hcall (h.complete c _)
    rw [hother c hcall] at hc
    apply hc.imp_right
    intro hmem
    apply ((hret c hmem).resolve_left fun hfirst => hcall hfirst.1).2
  intro c hc
  rcases hret c hc with ⟨rfl, hnew⟩ | ⟨hcall, hold⟩
  · rw [hself, hnew]
  · rw [hother c hcall]
    apply h.ended c hold

/-- A call may come from one phase to another: it saves in neither, has not succeeded unless it had,
is under way only if it was, and stays late. -/
structure Phase.Goes (old new : Phase S) : Prop where
  before : old.saves = false
  after : new.saves = false
  succeeded : new.succeeded → old.succeeded
  active : new.active → old.active
  late : old.late → new.late

/-- Whether a call may come from one phase to another. -/
def Phase.goes (old new : Phase S) : Bool :=
  !old.saves && !new.saves && (!new.succeeded || old.succeeded) &&
    (!new.active || old.active) && (!old.late || new.late)

theorem goes_of_phase {old : Phase S} (hphase : s.phase call = old) (h : old.goes new) :
  (s.phase call).Goes new
  := by
  subst hphase
  simp only [Phase.goes, Bool.and_eq_true, Bool.or_eq_true, Bool.not_eq_true'] at h
  obtain ⟨⟨⟨⟨hold, hnew⟩, hsucc⟩, hact⟩, hlate⟩ := h
  constructor
  · apply hold
  · apply hnew
  · intro h
    apply hsucc.resolve_left
    rw [h]
    exact Bool.false_ne_true.symm
  · intro h
    apply hact.resolve_left
    rw [h]
    exact Bool.false_ne_true.symm
  intro h
  apply hlate.resolve_left
  rw [h]
  exact Bool.false_ne_true.symm

theorem ended_of_late {phase : Phase S} (hlate : phase.late) (hact : phase.active = false) :
  phase = .ended
  := by
  cases phase <;> first | contradiction | rfl

/-- A call comes to a phase in which it does not save, and with it another lock file to the path. -/
theorem Inv.moves (h : Inv W content₀ s) (hgoes : (s.phase call).Goes new)
    {lock : Option LockFile} {next : ℕ} (hsole : Sole (lock.map LockFile.number)
      (Function.update (fun c => (s.phase c).owned) call new.owned) next) :
  Inv W content₀ { s.goto call new with lock := lock, next := next }
  := by
  apply h.put rfl hsole
  · intro c hc
    apply hc
  · intro hnew
    apply h.begun call (hgoes.active hnew)
  · intro sec hsec
    by_cases hcall : sec.call = call
    · left
      use hcall
      apply hgoes.late
      rw [← hcall]
      apply h.late sec hsec
    · right
      use hcall, hsec
  · apply h.serial
  · rintro n loaded rest failed rfl
    have hnew := hgoes.after
    contradiction
  · intro c _
    apply h.saves c
  · intro hc
    apply h.complete call (hc.imp_left hgoes.succeeded)
  · intro c _ hc
    apply hc
  intro c hc
  by_cases hcall : c = call
  · subst hcall
    left
    use rfl
    apply ended_of_late
    · apply hgoes.late
      rw [h.ended c hc]
      rfl
    rw [← Bool.not_eq_true]
    intro hact
    have hended := hgoes.active hact
    rw [h.ended c hc] at hended
    contradiction
  · right
    use hcall, hc

/-- A call is over, and returns if it has succeeded. -/
theorem Inv.finish (h : Inv W content₀ s) {succeeded : Bool} {lock : Option LockFile}
    (hsole : Sole (lock.map LockFile.number)
      (Function.update (fun c => (s.phase c).owned) call none) s.next)
    (hcompl : succeeded → Complete W content₀ s.sections call) :
  Inv W content₀ { s.finish call succeeded with lock := lock }
  := by
  have hmem (c : ℕ) (hc : c ∈ (s.finish call succeeded).returned) :
      c ∈ s.returned ∨ c = call ∧ succeeded := by
    change c ∈ (if succeeded then s.returned ++ [call] else s.returned) at hc
    split_ifs at hc with hsucc
    · apply (mem_append.mp hc).imp_right
      intro hlast
      use mem_singleton.mp hlast, hsucc
    · left
      apply hc
  apply h.put rfl hsole
  · intro c hc
    apply hc
  · intro hact
    contradiction
  · intro sec hsec
    by_cases hcall : sec.call = call
    · left
      use hcall
      rfl
    · right
      use hcall, hsec
  · apply h.serial
  · intro n loaded rest failed hc
    contradiction
  · intro c _
    apply h.saves c
  · rintro (hc | hc)
    · contradiction
    rcases hmem call hc with hold | ⟨-, hsucc⟩
    · apply h.complete call (.inr hold)
    · apply hcompl hsucc
  · intro c _ hc
    apply hc
  intro c hc
  by_cases hcall : c = call
  · left
    use hcall
  · right
    use hcall, (hmem c hc).resolve_right fun hlast => hcall hlast.1

/-- A call that owns a lock file is the only one that saves. -/
theorem Inv.sole_saves (h : Inv W content₀ s) {m : ℕ} (howned : (s.phase call).owned = some m)
    {c : ℕ} {loaded : S.Content} {rest : List S.Write}
    (hc : s.phase c = .saving n loaded rest failed) :
  c = call
  := by
  apply h.sole.eq (m := n) (n := m)
  · rw [hc]
    rfl
  · apply howned

/-- A call loads, and plans what it is to write. -/
theorem Inv.load (h : Inv W content₀ s) {plan : List S.Write}
    (hphase : s.phase call = .loading n) (hplan : S.plan (W.op call) s.content = some plan) :
  Inv W content₀ { s.goto call (.saving n s.content plan false) with
    sections := s.sections ++ [⟨call, []⟩] }
  := by
  have howned : (s.phase call).owned = some n := by rw [hphase]; rfl
  have hnew : ∀ sec ∈ s.sections, sec.call ≠ call := by
    rintro sec hsec rfl
    have hlate := h.late sec hsec
    rw [hphase] at hlate
    contradiction
  apply h.put rfl
  · change Sole _ (Function.update _ call (some n)) _
    rw [← howned, Function.update_eq_self]
    apply h.sole
  · intro c hc
    apply hc
  · intro _
    apply h.begun call (active_of_owned howned)
  · intro sec hsec
    rcases mem_append.mp hsec with hsec | hsec
    · right
      use hnew sec hsec, hsec
    left
    rw [mem_singleton.mp hsec]
    use rfl
    rfl
  · apply h.serial.snoc hplan Attempt.start
  · intro m loaded rest failed hc
    obtain ⟨-, rfl, rfl, rfl⟩ := Phase.saving.inj hc
    use s.sections, [], plan, rfl, hnew, h.serial, hplan, Attempt.start
    rfl
  · intro c hcall m loaded rest failed hc
    apply absurd (h.sole_saves howned hc) hcall
  · rintro (hc | hc)
    · contradiction
    · rw [h.ended call hc] at hphase
      contradiction
  · intro c _ hc
    apply hc.append
  intro c hc
  right
  constructor
  · rintro rfl
    rw [h.ended c hc] at hphase
    contradiction
  · apply hc

/-- A call goes on saving, with its writes so far as the last section. -/
theorem Inv.save (h : Inv W content₀ s) {loaded content : S.Content}
    {rest rest' : List S.Write} {failed' : Bool} {past : List (Section S)}
    {writes writes' plan : List S.Write} (hphase : s.phase call = .saving n loaded rest failed)
    (hsecs : s.sections = past ++ [⟨call, writes⟩]) (hpast : ∀ sec ∈ past, sec.call ≠ call)
    (hser : Serial W content₀ past loaded) (hplan : S.plan (W.op call) loaded = some plan)
    (hatt : Attempt plan writes' rest' failed') (hcont : content = S.performs writes' loaded) :
  Inv W content₀ { s.goto call (.saving n loaded rest' failed') with
    content := content
    sections := past ++ [⟨call, writes'⟩] }
  := by
  have howned : (s.phase call).owned = some n := by rw [hphase]; rfl
  apply h.put rfl
  · change Sole _ (Function.update _ call (some n)) _
    rw [← howned, Function.update_eq_self]
    apply h.sole
  · intro c hc
    apply hc
  · intro _
    apply h.begun call (active_of_owned howned)
  · intro sec hsec
    rcases mem_append.mp hsec with hsec | hsec
    · right
      rw [hsecs]
      use hpast sec hsec, mem_append_left _ hsec
    left
    rw [mem_singleton.mp hsec]
    use rfl
    rfl
  · rw [hcont]
    apply hser.snoc hplan hatt
  · intro m loaded' rest'' failed'' hc
    obtain ⟨-, rfl, rfl, rfl⟩ := Phase.saving.inj hc
    use past, writes', plan, rfl, hpast, hser, hplan, hatt, hcont
  · intro c hcall m loaded rest failed hc
    apply absurd (h.sole_saves howned hc) hcall
  · rintro (hc | hc)
    · contradiction
    · rw [h.ended call hc] at hphase
      contradiction
  · intro c hcall hc
    rw [hsecs] at hc
    apply (hc.of_concat hcall).append
  intro c hc
  right
  constructor
  · rintro rfl
    rw [h.ended c hc] at hphase
    contradiction
  · apply hc

/-- A call that has written all that it was to write gives up the lock. -/
theorem Inv.complete_of_saved (h : Inv W content₀ s) {loaded : S.Content}
    (hphase : s.phase call = .saving n loaded [] failed) (hfail : failed = false) :
  Complete W content₀ s.sections call
  := by
  obtain ⟨past, writes, plan, hsecs, -, hser, hplan, hatt, -⟩ :=
    h.saves call n loaded [] failed hphase
  have heq := hatt.append_eq hfail
  rw [append_nil] at heq
  subst heq
  use past, writes, [], loaded

/-- A call has written all that it was to write, or has failed, and goes on to give up the lock. -/
theorem Inv.close (h : Inv W content₀ s) {loaded : S.Content}
    (hphase : s.phase call = .saving n loaded [] failed) :
  Inv W content₀ (s.goto call (.releasing n !failed))
  := by
  have howned : (s.phase call).owned = some n := by rw [hphase]; rfl
  apply h.put rfl
  · change Sole _ (Function.update _ call (some n)) _
    rw [← howned, Function.update_eq_self]
    apply h.sole
  · intro c hc
    apply hc
  · intro _
    apply h.begun call (active_of_owned howned)
  · intro sec hsec
    by_cases hcall : sec.call = call
    · left
      use hcall
      rfl
    · right
      use hcall, hsec
  · apply h.serial
  · intro m loaded rest failed hc
    contradiction
  · intro c _
    apply h.saves c
  · rintro (hc | hc)
    · apply h.complete_of_saved hphase
      rw [← Bool.not_eq_true']
      apply hc
    · apply h.complete call (.inr hc)
  · intro c _ hc
    apply hc
  intro c hc
  right
  constructor
  · rintro rfl
    rw [h.ended c hc] at hphase
    contradiction
  · apply hc

/-- A process crashes, and with it all its calls. -/
theorem Inv.crash (h : Inv W content₀ s) (process : ℕ) :
  Inv W content₀ { s with
    running := s.running.filter fun other => other ≠ process
    phase := fun c => if W.procOf c = process then .ended else s.phase c }
  := by
  have hphase (c : ℕ) : (if W.procOf c = process then .ended else s.phase c) = .ended ∨
      (if W.procOf c = process then .ended else s.phase c) = s.phase c := by
    split_ifs
    · left
      rfl
    · right
      rfl
  constructor
  · apply h.sole.restrict
    intro c n hc
    change (if W.procOf c = process then Phase.ended else s.phase c).owned = some n at hc
    rcases hphase c with heq | heq
    · rw [heq] at hc
      contradiction
    · rw [heq] at hc
      apply hc
  · intro c hc
    apply h.begun c
    change (if W.procOf c = process then Phase.ended else s.phase c).active = true at hc
    rcases hphase c with heq | heq
    · rw [heq] at hc
      contradiction
    · rw [heq] at hc
      apply hc
  · intro sec hsec
    change (if W.procOf sec.call = process then Phase.ended else s.phase sec.call).late = true
    rcases hphase sec.call with heq | heq
    · rw [heq]
      rfl
    · rw [heq]
      apply h.late sec hsec
  · apply h.serial
  · intro c n loaded rest failed hc
    change (if W.procOf c = process then Phase.ended else s.phase c) = _ at hc
    rcases hphase c with heq | heq
    · rw [heq] at hc
      contradiction
    · rw [heq] at hc
      apply h.saves c n loaded rest failed hc
  · intro c hc
    apply h.complete c
    change (if W.procOf c = process then Phase.ended else s.phase c).succeeded = true ∨ _ at hc
    rcases hc with hc | hc
    · rcases hphase c with heq | heq
      · rw [heq] at hc
        contradiction
      · rw [heq] at hc
        left
        apply hc
    · right
      apply hc
  intro c hc
  change (if W.procOf c = process then Phase.ended else s.phase c) = .ended
  split_ifs
  · rfl
  · apply h.ended c hc

/-- A call begins. -/
theorem Inv.begin (h : Inv W content₀ s) (hphase : s.phase call = .idle) :
  Inv W content₀ { s.goto call .opening with begun := call :: s.begun }
  := by
  have hret : ∀ c ∈ s.returned, c ≠ call := by
    rintro c hc rfl
    rw [h.ended c hc] at hphase
    contradiction
  apply h.put rfl
  · apply h.sole.drop
  · intro c hc
    apply mem_cons_of_mem _ hc
  · intro _
    apply mem_cons_self
  · intro sec hsec
    right
    constructor
    · rintro rfl
      have hlate := h.late sec hsec
      rw [hphase] at hlate
      contradiction
    · apply hsec
  · apply h.serial
  · intro n loaded rest failed hc
    contradiction
  · intro c _
    apply h.saves c
  · rintro (hc | hc)
    · contradiction
    · apply absurd rfl (hret call hc)
  · intro c _ hc
    apply hc
  intro c hc
  right
  use hret c hc, hc

/-! ### The steps of a call -/

/-- With the lock file and the number that a step leaves, the lock file is still that of the live
call that has created one, if the step removes none of a live call. -/
def Locks (s : State S) (a : Action) (call : ℕ) (owned : Option ℕ) (lock : Option LockFile)
    (next : ℕ) : Prop :=
  Undisturbed s a → (∀ c, (s.phase c).active → c ∈ s.begun) →
    Sole (s.lock.map LockFile.number) (fun c => (s.phase c).owned) s.next →
      Sole (lock.map LockFile.number) (Function.update (fun c => (s.phase c).owned) call owned) next

/-- What a step can do: a process comes or the clock goes on; a process crashes; a call begins, goes
from one phase to another without saving, or is over; it loads, writes, fails to write, or has
written all that it was to write. -/
inductive Turn (W : World S) (s : State S) (a : Action) : State S → Prop
  | runs {running : List ℕ} {now : ℤ} : Turn W s a { s with running := running, now := now }
  | crashes {process : ℕ} (ha : a = .crash process) : Turn W s a { s with
      running := s.running.filter fun other => other ≠ process
      phase := fun call => if W.procOf call = process then .ended else s.phase call }
  | begins {call : ℕ} (hphase : s.phase call = .idle) :
    Turn W s a { s.goto call .opening with begun := call :: s.begun }
  | goes {call : ℕ} {new : Phase S} (lock : Option LockFile) (next : ℕ)
      (hgoes : (s.phase call).Goes new) (hlocks : Locks s a call new.owned lock next) :
    Turn W s a { s.goto call new with lock := lock, next := next }
  | ends {call : ℕ} {succeeded : Bool} (lock : Option LockFile)
      (hold : (s.phase call).saves = false)
      (hsucc : succeeded → (s.phase call).succeeded)
      (hlocks : Locks s a call none lock s.next) :
    Turn W s a { s.finish call succeeded with lock := lock }
  | loads {call n : ℕ} {plan : List S.Write} (hphase : s.phase call = .loading n)
      (hplan : S.plan (W.op call) s.content = some plan) :
    Turn W s a { s.goto call (.saving n s.content plan false) with
      sections := s.sections ++ [⟨call, []⟩] }
  | writes {call n : ℕ} {loaded : S.Content} {write : S.Write} {rest : List S.Write}
      {failed : Bool} (hphase : s.phase call = .saving n loaded (write :: rest) failed) :
    Turn W s a ((s.write call write).goto call (.saving n loaded rest failed))
  | fails {call n : ℕ} {loaded : S.Content} {write : S.Write} {rest : List S.Write} {failed : Bool}
      (ha : a = .fails call) (hphase : s.phase call = .saving n loaded (write :: rest) failed) :
    Turn W s a (s.goto call (.saving n loaded (if failed then rest else S.recover write) true))
  | closes {call n : ℕ} {loaded : S.Content} {failed : Bool}
      (hphase : s.phase call = .saving n loaded [] failed) :
    Turn W s a (s.goto call (.releasing n !failed))

variable {a : Action}

/-- A call goes from one phase to another, in which it owns what it owned, or gives it up. -/
theorem Turn.stays {old : Phase S} (hphase : s.phase call = old) (hgoes : old.goes new)
    (howned : new.owned = old.owned ∨ new.owned = none) :
  Turn W s a (s.goto call new)
  := by
  have hturn : Turn W s a { s.goto call new with lock := s.lock, next := s.next } := by
    apply Turn.goes s.lock s.next (goes_of_phase hphase hgoes)
    intro _ _ hsole
    rcases howned with howned | howned
    · rw [howned, ← hphase, Function.update_eq_self]
      apply hsole
    · rw [howned]
      apply hsole.drop
  apply hturn

/-- A call that gives up the lock, or has given it up, is over. -/
theorem Turn.finishes {old : Phase S} {succeeded : Bool} (hphase : s.phase call = old)
    (hold : old.saves = false) (hsucc : old.succeeded = succeeded) :
  Turn W s a (s.finish call succeeded)
  := by
  have hturn : Turn W s a { s.finish call succeeded with lock := s.lock } := by
    apply Turn.ends s.lock
    · rw [hphase, hold]
    · rw [hphase, hsucc]
      apply id
    · intro _ _ hsole
      apply hsole.drop
  apply hturn

/-- The phases that follow a lock file that cannot be read. -/
theorem unreadable_cases : (unreadable : Phase S) = .aging ∨ (unreadable : Phase S) = .removing
  := by
  rw [unreadable]
  split_ifs
  · left
    rfl
  · right
    rfl

/-- The phases that follow the judgement of a lock file. -/
theorem judged_cases (alive : Bool) :
  (judged alive : Phase S) = .polling ∨ (judged alive : Phase S) = .removing
  := by
  cases alive with
  | false => exact .inr rfl
  | true => exact .inl rfl

/-- What a file operation can do. -/
theorem turn_advance {foreign : Bool} (hstep : advance W s call foreign = some t) :
  Turn W s (.next call foreign) t
  := by
  rw [LockedStore.advance.eq_def] at hstep
  split at hstep
  · rename_i hphase
    split at hstep
    · rename_i hlock
      cases hstep
      apply Turn.goes _ _ (goes_of_phase hphase rfl)
      intro _ _ hsole
      rw [hlock] at hsole
      apply hsole.create
    · cases hstep
      exact Turn.stays hphase rfl (.inl rfl)
  · rename_i number hphase
    cases hstep
    apply Turn.goes _ s.next (goes_of_phase hphase rfl)
    intro _ _ hsole
    have hnumbers : (s.lock.map fun file => if file.number = number then
        { file with owner := some ⟨W.pidOf (W.procOf call), call⟩, mtime := s.now }
        else file).map LockFile.number = s.lock.map LockFile.number := by
      cases s.lock with
      | none => rfl
      | some file =>
        rw [Option.map_some, Option.map_some, Option.map_some]
        split_ifs <;> rfl
    have howned : Phase.owned (.syncing number : Phase S) = (s.phase call).owned := by
      rw [hphase]
      rfl
    rw [hnumbers, howned, Function.update_eq_self]
    apply hsole
  · rename_i number hphase
    cases hstep
    exact Turn.stays hphase rfl (.inl rfl)
  · rename_i number hphase
    cases hstep
    exact Turn.stays hphase rfl (.inl rfl)
  · rename_i number hphase
    cases hstep
    apply Turn.goes _ s.next (goes_of_phase hphase rfl)
    intro _ _ hsole
    apply hsole.release
    rw [hphase]
    rfl
  · rename_i hphase
    split at hstep
    · cases hstep
      exact Turn.stays hphase rfl (.inl rfl)
    split at hstep
    · cases hstep
      rcases unreadable_cases with h | h
      all_goals
        rw [h]
        exact Turn.stays hphase rfl (.inl rfl)
    split_ifs at hstep
    all_goals
      cases hstep
      exact Turn.stays hphase rfl (.inl rfl)
  · rename_i pid hphase
    cases hstep
    rcases judged_cases (s.runs W pid || foreign) with h | h
    all_goals
      rw [h]
      exact Turn.stays hphase rfl (.inl rfl)
  · rename_i hphase
    split at hstep
    · cases hstep
      exact Turn.stays hphase rfl (.inl rfl)
    cases hstep
    rcases judged_cases _ with h | h
    all_goals
      rw [h]
      exact Turn.stays hphase rfl (.inl rfl)
  · rename_i hphase
    cases hstep
    apply Turn.goes _ s.next (goes_of_phase hphase rfl)
    intro hcalm hbegun hsole
    rw [undisturbed_next_iff, hphase] at hcalm
    have howned : Phase.owned (.opening : Phase S) = (s.phase call).owned := by
      rw [hphase]
      rfl
    rw [howned, Function.update_eq_self]
    apply hsole.remove
    intro n hn c hc
    obtain ⟨file, hfile, rfl⟩ := Option.map_eq_some_iff.mp hn
    apply hcalm rfl file hfile c (hbegun c (active_of_owned hc)) hc
  · rename_i hphase
    cases hstep
    exact Turn.stays hphase rfl (.inl rfl)
  · rename_i number hphase
    split at hstep
    · cases hstep
      exact Turn.stays hphase rfl (.inl rfl)
    · rename_i writes hplan
      cases hstep
      apply Turn.loads hphase hplan
  · rename_i number loaded failed hphase
    cases hstep
    apply Turn.closes hphase
  · rename_i number loaded write rest failed hphase
    cases hstep
    apply Turn.writes hphase
  · rename_i number succeeded hphase
    split at hstep
    · cases hstep
      exact Turn.finishes hphase rfl rfl
    split at hstep
    · cases hstep
      exact Turn.stays hphase rfl (.inr rfl)
    split_ifs at hstep
    · cases hstep
      cases succeeded with
      | false | true => exact Turn.stays hphase rfl (.inl rfl)
    · cases hstep
      exact Turn.finishes hphase rfl rfl
  · rename_i number succeeded hphase
    cases hstep
    apply Turn.ends
    · rw [hphase]
      rfl
    · rw [hphase]
      apply id
    intro _ _ hsole
    apply hsole.release
    rw [hphase]
    rfl
  all_goals contradiction

/-- What a step can do. -/
theorem turn_step (hstep : step W s a = some t) :
  Turn W s a t
  := by
  cases a with
  | spawn process =>
    rw [LockedStore.step] at hstep
    split_ifs at hstep
    cases hstep
    apply Turn.runs
  | crash process =>
    cases hstep
    apply Turn.crashes rfl
  | clock now =>
    cases hstep
    apply Turn.runs
  | begin call =>
    rw [LockedStore.step] at hstep
    split at hstep
    · rename_i hphase
      split_ifs at hstep
      cases hstep
      apply Turn.begins hphase
    · contradiction
  | next call foreign => apply turn_advance hstep
  | fails call =>
    obtain ⟨new, hnew, rfl⟩ := Option.map_eq_some_iff.mp hstep
    cases hphase : s.phase call with
    | idle | probing pid | polling | ended =>
      rw [hphase] at hnew
      contradiction
    | reading =>
      rw [hphase] at hnew
      cases hnew
      rcases unreadable_cases with h | h
      all_goals
        rw [h]
        exact Turn.stays hphase rfl (.inl rfl)
    | opening | removing | aging | created number | syncing number | loading number
    | closing number | discarding number | releasing number succeeded
    | unlocking number succeeded =>
      rw [hphase] at hnew
      cases hnew
      apply Turn.stays hphase rfl
      simp [Phase.owned]
    | saving number loaded rest failed =>
    rw [hphase] at hnew
    cases rest with
    | nil => contradiction
    | cons write rest =>
    cases hnew
    apply Turn.fails rfl hphase
  | transient call =>
    rw [LockedStore.step] at hstep
    split at hstep
    · rename_i hphase
      cases hstep
      exact Turn.stays hphase rfl (.inl rfl)
    · rename_i hphase
      cases hstep
      exact Turn.stays hphase rfl (.inl rfl)
    · rename_i number succeeded hphase
      cases hstep
      exact Turn.finishes hphase rfl rfl
    · contradiction
  | timeout call =>
  rw [LockedStore.step] at hstep
  split at hstep
  · rename_i hphase
    cases hstep
    exact Turn.stays hphase rfl (.inl rfl)
  · contradiction

/-- A step that removes no lock file that a live call has created and not given up keeps the
invariant. -/
theorem Inv.step (h : Inv W content₀ s) (hcalm : Undisturbed s a) (hstep : step W s a = some t) :
  Inv W content₀ t
  := by
  cases turn_step hstep with
  | runs => exact ⟨h.sole, h.begun, h.late, h.serial, h.saves, h.complete, h.ended⟩
  | crashes ha => apply h.crash
  | begins hphase => apply h.begin hphase
  | goes lock next hgoes hlocks => apply h.moves hgoes (hlocks hcalm h.begun h.sole)
  | @ends call succeeded lock hold hsucc hlocks =>
    apply h.finish (hlocks hcalm h.begun h.sole)
    intro hs
    apply h.complete call (.inl (hsucc hs))
  | loads hphase hplan => apply h.load hphase hplan
  | closes hphase => apply h.close hphase
  | @writes call number loaded write rest failed hphase =>
    obtain ⟨past, writes, plan, hsecs, hpast, hser, hplan, hatt, hcont⟩ :=
      h.saves call number loaded (write :: rest) failed hphase
    have hwrote : (s.write call write).sections = past ++ [⟨call, writes ++ [write]⟩] := by
      change s.sections.map _ = _
      rw [hsecs, map_append, map_write_of_ne hpast, map_singleton, if_pos rfl]
    have hsave : Inv W content₀ { s.goto call (.saving number loaded rest failed) with
        content := S.perform write s.content
        sections := past ++ [⟨call, writes ++ [write]⟩] } := by
      apply h.save hphase hsecs hpast hser hplan hatt.write
      rw [hcont, performs_append]
      rfl
    rw [← hwrote] at hsave
    apply hsave
  | @fails call number loaded write rest failed ha hphase =>
  obtain ⟨past, writes, plan, hsecs, hpast, hser, hplan, hatt, hcont⟩ :=
    h.saves call number loaded (write :: rest) failed hphase
  have hnext : Attempt plan writes (if failed then rest else S.recover write) true := by
    cases failed with
    | false => apply hatt.fail
    | true => apply hatt.failAgain
  have hsave := h.save hphase hsecs hpast hser hplan hnext hcont
  rw [← hsecs] at hsave
  apply hsave

/-! ### What a step does to the content -/

/-- What a step does to the content of the store and to what the calls have written: nothing, though
calls may return that have succeeded; or a process crashes with its calls; or a call loads, writes,
fails to write, or has written all that it was to write. -/
inductive Moves (W : World S) (s t : State S) : Action → Prop
  | idle {a : Action} (hcont : t.content = s.content) (hsecs : t.sections = s.sections)
      (hsaves : ∀ c n loaded rest failed, t.phase c = .saving n loaded rest failed ↔
        s.phase c = .saving n loaded rest failed)
      (hsucceeds : ∀ c, (t.phase c).succeeded ∨ c ∈ t.returned →
        (s.phase c).succeeded ∨ c ∈ s.returned) : Moves W s t a
  | crash {process : ℕ} (h : t = { s with
      running := s.running.filter fun other => other ≠ process
      phase := fun c => if W.procOf c = process then .ended else s.phase c }) :
    Moves W s t (.crash process)
  | load {a : Action} {call n : ℕ} {plan : List S.Write} (hphase : s.phase call = .loading n)
      (hplan : S.plan (W.op call) s.content = some plan)
      (h : t = { s.goto call (.saving n s.content plan false) with
        sections := s.sections ++ [⟨call, []⟩] }) : Moves W s t a
  | write {a : Action} {call n : ℕ} {loaded : S.Content} {write : S.Write} {rest : List S.Write}
      {failed : Bool} (hphase : s.phase call = .saving n loaded (write :: rest) failed)
      (h : t = (s.write call write).goto call (.saving n loaded rest failed)) : Moves W s t a
  | fail {call n : ℕ} {loaded : S.Content} {write : S.Write} {rest : List S.Write} {failed : Bool}
      (hphase : s.phase call = .saving n loaded (write :: rest) failed)
      (h : t = s.goto call
        (.saving n loaded (if failed then rest else S.recover write) true)) :
    Moves W s t (.fails call)
  | close {a : Action} {call n : ℕ} {loaded : S.Content} {failed : Bool}
      (hphase : s.phase call = .saving n loaded [] failed)
      (h : t = s.goto call (.releasing n !failed)) : Moves W s t a

/-- A call that does not save comes to a phase in which it does not save, and does not succeed
unless it has. -/
theorem moves_goto {a : Action} {new : Phase S} (hold : (s.phase call).saves = false)
    (hnew : new.saves = false) (hsucc : new.succeeded → (s.phase call).succeeded)
    (hphase : t.phase = Function.update s.phase call new) (hcont : t.content = s.content)
    (hsecs : t.sections = s.sections)
    (hret : ∀ c ∈ t.returned, c ∈ s.returned ∨ c = call ∧ (s.phase call).succeeded) :
  Moves W s t a
  := by
  have hphases (c : ℕ) : c = call ∧ t.phase c = new ∨ c ≠ call ∧ t.phase c = s.phase c := by
    rw [hphase]
    by_cases hc : c = call
    · subst hc
      left
      use rfl, update_self ..
    · right
      use hc, update_of_ne hc ..
  apply Moves.idle hcont hsecs
  · intro c n loaded rest failed
    rcases hphases c with ⟨rfl, heq⟩ | ⟨-, heq⟩
    · constructor
      · intro hc
        rw [← heq, hc] at hnew
        contradiction
      · intro hc
        rw [hc] at hold
        contradiction
    · rw [heq]
  rintro c (hc | hc)
  · left
    rcases hphases c with ⟨rfl, heq⟩ | ⟨-, heq⟩
    · rw [heq] at hc
      apply hsucc hc
    · rw [← heq]
      apply hc
  rcases hret c hc with hc | ⟨rfl, hc⟩
  · right
    apply hc
  · left
    apply hc

/-- A call that is over returns if it has succeeded. -/
theorem returned_finish {succeeded : Bool} (h : succeeded → (s.phase call).succeeded)
    {c : ℕ} (hc : c ∈ (s.finish call succeeded).returned) :
  c ∈ s.returned ∨ c = call ∧ (s.phase call).succeeded
  := by
  change c ∈ (if succeeded then s.returned ++ [call] else s.returned) at hc
  split_ifs at hc with hsucc
  · rcases mem_append.mp hc with hc | hc
    · left
      apply hc
    · right
      use mem_singleton.mp hc, h hsucc
  · left
    apply hc

/-- What a step does to the content. -/
theorem moves_step (hstep : step W s a = some t) :
  Moves W s t a
  := by
  cases turn_step hstep with
  | runs => exact Moves.idle rfl rfl (fun _ _ _ _ _ => Iff.rfl) fun _ hc => hc
  | crashes ha =>
    rw [ha]
    apply Moves.crash rfl
  | begins hphase =>
    refine @moves_goto _ _ _ _ _ _ .opening (by rw [hphase]; rfl) rfl nofun rfl rfl rfl ?_
    intro c hc
    left
    apply hc
  | goes lock next hgoes hlocks =>
    refine moves_goto hgoes.before hgoes.after hgoes.succeeded rfl rfl rfl ?_
    intro c hc
    left
    apply hc
  | ends lock hold hsucc hlocks =>
    refine @moves_goto _ _ _ _ _ _ .ended hold rfl nofun rfl rfl rfl ?_
    intro c
    apply returned_finish hsucc
  | loads hphase hplan => apply Moves.load hphase hplan rfl
  | writes hphase => apply Moves.write hphase rfl
  | fails ha hphase =>
    rw [ha]
    apply Moves.fail hphase rfl
  | closes hphase => apply Moves.close hphase rfl

/-! ### The content of the sections -/

/-- The content is what all writes of the sections have made of the first. -/
theorem Serial.content_eq {sections : List (Section S)} {content : S.Content}
    (h : Serial W content₀ sections content) :
  content = S.performs (sections.flatMap Section.writes) content₀
  := by
  induction h with
  | nil => rfl
  | snoc h hplan hatt ih =>
    rw [flatMap_append, performs_append, flatMap_singleton, ← ih]

/-- A call that has returned has loaded what the sections before it have made of the first content,
and the content is what the sections after it have made of what it was to write. -/
theorem Inv.content_eq (h : Inv W content₀ s) (hcall : call ∈ s.returned) :
  ∃ past writes rest loaded, s.sections = past ++ ⟨call, writes⟩ :: rest ∧
    loaded = S.performs (past.flatMap Section.writes) content₀ ∧
    S.plan (W.op call) loaded = some writes ∧
    s.content = S.performs (rest.flatMap Section.writes) (S.performs writes loaded)
  := by
  obtain ⟨past, writes, rest, loaded, hsecs, hser, hplan⟩ := h.complete call (.inr hcall)
  use past, writes, rest, loaded, hsecs, hser.content_eq, hplan
  rw [h.serial.content_eq, hsecs, flatMap_append, flatMap_cons, performs_append,
    performs_append, ← hser.content_eq]

/-- In every run in which no call removes a lock file that a live call has created and not given up
the invariant holds. -/
theorem inv_run {actions : List Action}
    (h : Guarded (step W) Undisturbed (initial content₀) actions)
    (hrun : run (step W) (initial content₀) actions = some s) :
  Inv W content₀ s
  := by
  apply h.invariant (fun s a t hs hok ht => hs.step hok ht) _ hrun
  apply inv_initial

end Storage.LockedStore
