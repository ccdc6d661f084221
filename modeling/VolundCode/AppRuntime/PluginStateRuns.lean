import VolundCode.AppRuntime.PluginApproval
import VolundCode.Lib.Run

/-!
# Runs of the plugin state store

A market plugin is enabled only if its version and its permissions are approved, an approval comes
from a call of `approve` that has found the entry with these permissions, and a call that rejects
has not changed the entries, unless it could not write them. No entry is put back in place of one
discovered later, as long as none is changed that was discovered anew since it was read; and the file
has the entries whenever no call is left, as long as nothing fails and the writes do not overtake one
another (`managed_of_run`).
-/

namespace AppRuntime.PluginState

open Run List Option

variable {sha256 : List Char → String} {s s' : State}

/-! ### The file -/

/-- No call has changed the entries and waits for the directory. -/
def NoDirectory (s : State) : Prop :=
  ∀ (i : ℕ) (request : Request) (answer : Option LocalPluginStateEntry),
    s.calls[i]? ≠ some (Call.mk request (.directory answer))

/-- What has been begun last is the file of the entries. -/
def Latest (s : State) : Prop :=
  match s.queue.getLast? with
  | none => parseFile s.file = some s.plugins
  | some writing => parseState writing.content = some s.plugins

/-- A file that has been begun, and its call. -/
def Begun (s : State) (writing : Writing) : Prop :=
  ∃ request answer, s.calls[writing.call]? =
        some ⟨request, .writing answer writing.temporary writing.content⟩ ∨
      s.calls[writing.call]? = some ⟨request, .renaming answer writing.temporary⟩ ∧
        s.temporaries writing.temporary = some (.value writing.content)

/-- The calls in `persist` have begun different files, and what is begun or waits for the directory
will be the file of the entries. -/
structure Written (s : State) : Prop where
  storable : Entries Storable s
  begun : ∀ writing ∈ s.queue, Begun s writing
  distinct : s.queue.Pairwise fun v w => v.call ≠ w.call ∧ v.temporary ≠ w.temporary
  writes : ∀ i request answer temporary content,
    s.calls[i]? = some (Call.mk request (.writing answer temporary content)) →
      Writing.mk i temporary content ∈ s.queue
  renames : ∀ i request answer temporary,
    s.calls[i]? = some (Call.mk request (.renaming answer temporary)) → ∃ writing ∈ s.queue, writing.call = i
  latest : s.ready = .loaded → NoDirectory s → Latest s

/-- Nothing fails, what is discovered can be stored, no two files under way have one name, and they
are renamed in the order in which they were begun. -/
def Orderly (sha256 : List Char → String) (s : State) : Action → Prop
  | .initialized i => ∀ manifest source dir,
      s.calls[i]? = some (Call.mk (.discover manifest source dir) .initializing) →
        isPluginName manifest.name ∧ dir ≠ "" ∧ isSha256 (permissionHash sha256 manifest)
  | .mkdir _ ok now => ok ∧ s.plugins.length ≤ maxPlugins ∧
      ∀ writing ∈ s.queue, writing.temporary ≠ now
  | .write _ ok _ => ok
  | .rename i ok => ok ∧ ∃ writing, s.queue.head? = some writing ∧ writing.call = i
  | _ => True

theorem written_start (file : Option Contents) :
  Written (start file)
  := by
  constructor
  · apply entries_start
  · intro writing h
    cases h
  · apply List.Pairwise.nil
  · intro i request answer temporary content h
    simp [start] at h
  · intro i request answer temporary h
    simp [start] at h
  · intro h
    cases h

/-- A stage in which no file has been begun. -/
def Stage.Fileless : Stage → Prop
  | .writing _ _ _ => False
  | .renaming _ _ => False
  | _ => True

variable {request : Request} {i : ℕ}

/-- A call without a file goes to another stage without a file. -/
theorem Written.begun_set (h : Written s) {stage : Stage}
    (stage' : Stage) (hcall : s.calls[i]? = some ⟨request, stage⟩) (hstage : stage.Fileless) {writing : Writing}
    (hmem : writing ∈ s.queue) :
  i ≠ writing.call ∧ Begun (s.setStage i request stage') writing
  := by
  obtain ⟨request', answer, hbegun⟩ := h.begun writing hmem
  have hne : i ≠ writing.call := by
    intro hi
    rw [← hi, hcall] at hbegun
    rcases hbegun with hbegun | ⟨hbegun, -⟩
    all_goals
      obtain ⟨-, rfl⟩ := Call.mk.inj (Option.some.inj hbegun)
      cases hstage
  refine ⟨hne, request', answer, ?_⟩
  have hget : (s.setStage i request stage').calls[writing.call]? = s.calls[writing.call]? := by
    dsimp only [State.setStage]
    rw [getElem?_set_of_some hcall, if_neg hne]
  rw [hget]
  apply hbegun

/-- What the invariant says of files, when a call without a file goes to another stage without
one. -/
theorem Written.setStage (h : Written s) (hstor : Entries Storable s')
    {stage : Stage} (stage' : Stage)
    (hcall : s.calls[i]? = some ⟨request, stage⟩) (hstage : stage.Fileless) (hstage' : stage'.Fileless)
    (hcalls : s'.calls = s.calls.set i ⟨request, stage'⟩) (hqueue : s'.queue = s.queue)
    (htemporaries : s'.temporaries = s.temporaries)
    (hlast : s'.ready = .loaded → NoDirectory s' → Latest s') :
  Written s'
  := by
  have hget (j : ℕ) :
      s'.calls[j]? = if i = j then some ⟨request, stage'⟩ else s.calls[j]? := by
    rw [hcalls, getElem?_set_of_some hcall]
  constructor
  · apply hstor
  · intro writing hmem
    rw [hqueue] at hmem
    obtain ⟨hne, request', answer, hbegun⟩ := h.begun_set stage' hcall hstage hmem
    refine ⟨request', answer, ?_⟩
    rw [hcalls, htemporaries]
    apply hbegun
  · rw [hqueue]
    apply h.distinct
  · intro j request' answer temporary content hj
    rw [hqueue]
    rw [hget] at hj
    split_ifs at hj
    · obtain ⟨-, rfl⟩ := Call.mk.inj (Option.some.inj hj)
      cases hstage'
    · apply h.writes j request' answer temporary content hj
  · intro j request' answer temporary hj
    rw [hqueue]
    rw [hget] at hj
    split_ifs at hj
    · obtain ⟨-, rfl⟩ := Call.mk.inj (Option.some.inj hj)
      cases hstage'
    · apply h.renames j request' answer temporary hj
  · apply hlast

/-- Nothing waits for the directory, when a call has gone to another stage that did not wait for
it. -/
theorem NoDirectory.of_set {stage stage' : Stage}
    (h : NoDirectory s') (hcall : s.calls[i]? = some ⟨request, stage⟩)
    (hstage : ∀ answer, stage ≠ .directory answer)
    (hcalls : s'.calls = s.calls.set i ⟨request, stage'⟩) :
  NoDirectory s
  := by
  intro j request' answer hj
  by_cases hi : i = j
  · rw [← hi, hcall] at hj
    obtain ⟨-, hj⟩ := Call.mk.inj (Option.some.inj hj)
    apply hstage answer hj
  · apply h j request' answer
    rw [hcalls, getElem?_set_of_some hcall, if_neg hi]
    apply hj

theorem exists_of_mem_mapM {α β : Type} {f : α → Option β} {l : List α} {r : List β}
    (h : l.mapM f = some r) {y : β} (hy : y ∈ r) :
  ∃ x ∈ l, f x = some y
  := by
  induction l generalizing r with
  | nil =>
    obtain rfl : [] = r := by simpa using h
    cases hy
  | cons x l ih =>
  rw [mapM_cons] at h
  simp only [bind_eq_bind, bind_eq_some_iff] at h
  obtain ⟨z, hz, rest, hrest, h⟩ := h
  cases h
  rcases mem_cons.mp hy with rfl | hy
  · exact ⟨x, mem_cons_self, hz⟩
  · obtain ⟨w, hw, hfw⟩ := ih hrest hy
    exact ⟨w, mem_cons_of_mem x hw, hfw⟩

theorem storable_of_parseState {v : Json} {plugins : Plugins} (h : parseState v = some plugins) :
  ∀ m ∈ plugins, Storable m.1 m.2
  := by
  unfold parseState at h
  split at h
  · simp only [bind_eq_bind, bind_eq_some_iff] at h
    obtain ⟨_, -, h⟩ := h
    split at h
    · simp only [bind_eq_some_iff] at h
      obtain ⟨_, -, h⟩ := h
      split at h
      · split_ifs at h
        intro m hm
        obtain ⟨member, -, hmember⟩ := exists_of_mem_mapM h hm
        rw [map_eq_some_iff] at hmember
        obtain ⟨entry, hentry, rfl⟩ := hmember
        apply storable_of_parseEntry hentry
      · cases h
    · cases h
  · cases h

/-- The entries of the file can be stored. -/
theorem storable_of_parseFile {file : Option Contents} {plugins : Plugins}
    (h : parseFile file = some plugins) :
  ∀ m ∈ plugins, Storable m.1 m.2
  := by
  unfold parseFile at h
  split at h
  · cases h
    apply forall_mem_nil
  · apply storable_of_parseState h
  · cases h

/-- What has been loaded can be stored. -/
def Loaded (s : State) : Prop :=
  ∀ m ∈ s.loaded, Storable m.1 m.2

variable {a : Action}

theorem Loaded.step (hmoves : Moves sha256 s a s') (h : Loaded s) :
  Loaded s'
  := by
  cases hmoves with
  | load ok hready =>
    unfold State.load
    split
    · apply h
    next plugins hplugs =>
      split_ifs at hplugs
      apply storable_of_parseFile hplugs
  | _ => exact h

/-- The entries can be stored. -/
theorem Entries.storable (hmoves : Moves sha256 s a s') (h : Entries Storable s)
    (hload : Loaded s) (hord : Orderly sha256 s a) :
  Entries Storable s'
  := by
  apply h.step hmoves
  · intro name entry hentry
    apply hentry
  · apply hload.step hmoves
  · rintro i manifest source dir previous rfl hcall hprev
    obtain ⟨hname, hdir, hhash⟩ := hord manifest source dir hcall
    constructor
    · apply hname
    · rfl
    · intro value hvalue
      cases hvalue
    · apply hdir
    · apply hhash
    · dsimp only [discoveredEntry]
      split_ifs
      · apply hhash
      · rfl
    · cases previous with
      | none => apply Nat.zero_le
      | some entry => apply (hprev entry rfl).failures
  intro i request entry next hcall hentry hdec
  cases hdec with
  | approve =>
    constructor
    · apply hentry.isName
    · apply hentry.named
    · apply hentry.source
    · apply hentry.dir
    · apply hentry.hash
    · apply hentry.hash
    · apply hentry.failures
  | setEnabled happr =>
  constructor
  · apply hentry.isName
  · apply hentry.named
  · apply hentry.source
  · apply hentry.dir
  · apply hentry.hash
  · apply hentry.approved
  · apply hentry.failures

/-- A call that is made. -/
theorem Written.call (h : Written s) (request : Request)
    (hstor : Entries Storable (s.call request)) :
  Written (s.call request)
  := by
  have hget {i : ℕ} {c : Call} (hc : (s.call request).calls[i]? = some c)
      (hstage : c.stage ≠ .initializing) : s.calls[i]? = some c := by
    unfold State.call at hc
    dsimp only at hc
    rw [List.getElem?_append] at hc
    split_ifs at hc
    · apply hc
    exfalso
    have hmem := mem_of_getElem? hc
    rw [mem_singleton] at hmem
    apply hstage
    rw [hmem]
  constructor
  · apply hstor
  · intro writing hmem
    obtain ⟨request', answer, hbegun⟩ := h.begun writing hmem
    refine ⟨request', answer, ?_⟩
    have hlt : writing.call < s.calls.length := by
      rcases hbegun with hbegun | ⟨hbegun, -⟩
      all_goals apply (List.getElem?_eq_some_iff.mp hbegun).1
    unfold State.call
    dsimp only
    rw [List.getElem?_append_left hlt]
    apply hbegun
  · apply h.distinct
  · intro i request' answer temporary content hi
    apply h.writes i request' answer temporary content
    apply hget hi (by simp)
  · intro i request' answer temporary hi
    apply h.renames i request' answer temporary
    apply hget hi (by simp)
  intro hready hnone
  apply h.latest
  · unfold State.call at hready
    dsimp only at hready
    split_ifs at hready
    apply hready
  intro i request' answer hi
  apply hnone i request' answer
  unfold State.call
  dsimp only
  rw [List.getElem?_append_left (List.getElem?_eq_some_iff.mp hi).1]
  apply hi

/-- The end of the load. -/
theorem Written.load (h : Written s) (hkept : Kept s) (ok : Bool) (hready : s.ready = .loading)
    (hstor : Entries Storable (s.load ok)) :
  Written (s.load ok)
  := by
  -- no call has gone on before the load, so no file has been begun
  have hqueue : s.queue = [] := by
    apply eq_nil_iff_forall_not_mem.mpr
    intro writing hmem
    obtain ⟨request, answer, hbegun⟩ := h.begun writing hmem
    have hload : s.ready = .loaded := by
      rcases hbegun with hbegun | ⟨hbegun, -⟩
      all_goals apply hkept.started _ _ hbegun trivial
    rw [hready] at hload
    cases hload
  unfold State.load at hstor ⊢
  split
  next hnone =>
    rw [hnone] at hstor
    constructor
    · apply hstor
    · apply h.begun
    · apply h.distinct
    · apply h.writes
    · apply h.renames
    · intro hfail
      cases hfail
  next plugins hplugs =>
    rw [hplugs] at hstor
    constructor
    · apply hstor
    · apply h.begun
    · apply h.distinct
    · apply h.writes
    · apply h.renames
    intro _ _
    unfold Latest
    dsimp only
    rw [hqueue]
    split_ifs at hplugs
    apply hplugs

variable {answer : Option LocalPluginStateEntry}

/-- A file is begun. -/
theorem Written.mkdir (h : Written s) {now : ℕ}
    (hcall : s.calls[i]? = some ⟨request, .directory answer⟩) (hstor : Entries Storable
      { s.setStage i request (.writing answer now (stateJson s.plugins)) with
        queue := s.queue ++ [Writing.mk i now (stateJson s.plugins)] })
    (hlen : s.plugins.length ≤ maxPlugins)
    (htemp : ∀ writing ∈ s.queue, writing.temporary ≠ now) :
  Written
    { s.setStage i request (.writing answer now (stateJson s.plugins)) with
      queue := s.queue ++ [Writing.mk i now (stateJson s.plugins)] }
  := by
  have hget (j : ℕ) : (s.calls.set i ⟨request, .writing answer now (stateJson s.plugins)⟩)[j]? =
      if i = j then some ⟨request, .writing answer now (stateJson s.plugins)⟩
      else s.calls[j]? := getElem?_set_of_some hcall j
  constructor
  · apply hstor
  · intro writing hmem
    rcases mem_append.mp hmem with hmem | hmem
    · apply (h.begun_set _ hcall trivial hmem).2
    obtain rfl := mem_singleton.mp hmem
    refine ⟨request, answer, Or.inl ?_⟩
    dsimp only [State.setStage]
    rw [hget, if_pos rfl]
  · apply pairwise_append.mpr
    refine ⟨h.distinct, pairwise_singleton _ _, ?_⟩
    intro writing hmem new hnew
    obtain rfl := mem_singleton.mp hnew
    refine ⟨?_, htemp writing hmem⟩
    apply Ne.symm
    apply (h.begun_set .initializing hcall trivial hmem).1
  · intro j request' answer' temporary content hj
    apply mem_append.mpr
    dsimp only [State.setStage] at hj
    rw [hget] at hj
    split_ifs at hj with hi
    · right
      obtain ⟨-, hstage⟩ := Call.mk.inj (Option.some.inj hj)
      obtain ⟨-, rfl, rfl⟩ := Stage.writing.inj hstage
      rw [hi]
      apply mem_singleton_self
    · left
      apply h.writes j request' answer' temporary content hj
  · intro j request' answer' temporary hj
    dsimp only [State.setStage] at hj
    rw [hget] at hj
    split_ifs at hj
    · obtain ⟨-, hstage⟩ := Call.mk.inj (Option.some.inj hj)
      cases hstage
    · obtain ⟨writing, hmem, heq⟩ := h.renames j request' answer' temporary hj
      exact ⟨writing, mem_append_left _ hmem, heq⟩
  intro _ _
  unfold Latest
  dsimp only
  rw [List.getLast?_concat]
  apply parseState_stateJson hlen hstor.plugins

/-- Only one file is under way with a name, and for a call. -/
theorem Written.eq_of_temporary (h : Written s) {v w : Writing} (hv : v ∈ s.queue)
    (hw : w ∈ s.queue) (heq : v.call = w.call ∨ v.temporary = w.temporary) :
  v = w
  := by
  by_contra hne
  have hsymm : Std.Symm fun v w : Writing => v.call ≠ w.call ∧ v.temporary ≠ w.temporary :=
    ⟨fun v w hvw => ⟨hvw.1.symm, hvw.2.symm⟩⟩
  have hdist := h.distinct.forall hv hw hne
  rcases heq with heq | heq
  · apply hdist.1 heq
  · apply hdist.2 heq

/-- A file is written. -/
theorem Written.write (h : Written s) {temporary : ℕ} {content : Json}
    (hcall : s.calls[i]? = some ⟨request, .writing answer temporary content⟩)
    (hstor : Entries Storable
      { s.setStage i request (.renaming answer temporary) with
        temporaries := Function.update s.temporaries temporary (some (.value content)) })
    (hlast : s.ready = .loaded → NoDirectory
      { s.setStage i request (.renaming answer temporary) with
        temporaries := Function.update s.temporaries temporary (some (.value content)) } →
      Latest s) :
  Written
    { s.setStage i request (.renaming answer temporary) with
      temporaries := Function.update s.temporaries temporary (some (.value content)) }
  := by
  have hget (j : ℕ) : (s.calls.set i ⟨request, .renaming answer temporary⟩)[j]? =
      if i = j then some ⟨request, .renaming answer temporary⟩
      else s.calls[j]? := getElem?_set_of_some hcall j
  have hwriting := h.writes i request answer temporary content hcall
  constructor
  · apply hstor
  · intro writing hmem
    by_cases hi : i = writing.call
    · obtain rfl := h.eq_of_temporary hwriting hmem (Or.inl hi)
      refine ⟨request, answer, Or.inr ⟨?_, ?_⟩⟩
      · dsimp only [State.setStage]
        rw [hget, if_pos rfl]
      · apply Function.update_self
    obtain ⟨request', answer', hbegun⟩ := h.begun writing hmem
    refine ⟨request', answer', ?_⟩
    have hne : writing.temporary ≠ temporary := by
      intro heq
      have hsame := h.eq_of_temporary hwriting hmem (Or.inr heq.symm)
      apply hi
      rw [← hsame]
    dsimp only [State.setStage]
    rw [hget, if_neg hi, Function.update_of_ne hne]
    apply hbegun
  · apply h.distinct
  · intro j request' answer' temporary' content' hj
    dsimp only [State.setStage] at hj
    rw [hget] at hj
    split_ifs at hj
    · obtain ⟨-, hstage⟩ := Call.mk.inj (Option.some.inj hj)
      cases hstage
    · apply h.writes j request' answer' temporary' content' hj
  · intro j request' answer' temporary' hj
    dsimp only [State.setStage] at hj
    rw [hget] at hj
    split_ifs at hj with hi
    · exact ⟨_, hwriting, hi⟩
    · apply h.renames j request' answer' temporary' hj
  · apply hlast

/-- A file that is begun in the stage of a rename has been written. -/
theorem Written.renaming (h : Written s) {temporary : ℕ}
    {writing : Writing} (hmem : writing ∈ s.queue)
    (hcall : s.calls[writing.call]? = some ⟨request, .renaming answer temporary⟩) :
  writing.temporary = temporary ∧ s.temporaries temporary = some (.value writing.content)
  := by
  obtain ⟨request', answer', hbegun | ⟨hbegun, hcont⟩⟩ := h.begun writing hmem
  · rw [hcall] at hbegun
    obtain ⟨-, hstage⟩ := Call.mk.inj (Option.some.inj hbegun)
    cases hstage
  rw [hcall] at hbegun
  obtain ⟨-, hstage⟩ := Call.mk.inj (Option.some.inj hbegun)
  obtain ⟨-, rfl⟩ := Stage.renaming.inj hstage
  exact ⟨rfl, hcont⟩

/-- The file that was begun first is renamed. -/
theorem Written.rename (h : Written s) {temporary : ℕ} {content : Contents} {writing : Writing}
    (hcall : s.calls[writing.call]? = some ⟨request, .renaming answer temporary⟩)
    (hcont : s.temporaries temporary = some content) (hstor : Entries Storable
      { s.settle writing.call request (.ok answer) with
        temporaries := Function.update s.temporaries temporary none
        file := some content
        queue := s.queue.filter (·.call ≠ writing.call) })
    (hhead : s.queue.head? = some writing) :
  Written
    { s.settle writing.call request (.ok answer) with
      temporaries := Function.update s.temporaries temporary none
      file := some content
      queue := s.queue.filter (·.call ≠ writing.call) }
  := by
  have hget (j : ℕ) : (s.calls.set writing.call ⟨request, .settled (.ok answer)⟩)[j]? =
      if writing.call = j then some ⟨request, .settled (.ok answer)⟩
      else s.calls[j]? := getElem?_set_of_some hcall j
  have hmem : writing ∈ s.queue := mem_of_head? hhead
  obtain ⟨rfl, hwrote⟩ := h.renaming hmem hcall
  obtain rfl : Contents.value writing.content = content := by
    rw [hcont] at hwrote
    exact (Option.some.inj hwrote).symm
  constructor
  · apply hstor
  · intro other hother
    obtain ⟨hother, hne⟩ := mem_filter.mp hother
    rw [decide_eq_true_eq] at hne
    obtain ⟨request', answer', hbegun⟩ := h.begun other hother
    refine ⟨request', answer', ?_⟩
    have htemp : other.temporary ≠ writing.temporary := by
      intro heq
      apply hne
      rw [h.eq_of_temporary hother hmem (Or.inr heq)]
    dsimp only [State.settle, State.setStage]
    rw [hget, if_neg (Ne.symm hne), Function.update_of_ne htemp]
    apply hbegun
  · apply h.distinct.filter
  · intro j request' answer' temporary' content' hj
    dsimp only [State.settle, State.setStage] at hj
    rw [hget] at hj
    split_ifs at hj with hi
    · obtain ⟨-, hstage⟩ := Call.mk.inj (Option.some.inj hj)
      cases hstage
    apply mem_filter.mpr
    refine ⟨h.writes j request' answer' temporary' content' hj, ?_⟩
    rw [decide_eq_true_eq]
    exact Ne.symm hi
  · intro j request' answer' temporary' hj
    dsimp only [State.settle, State.setStage] at hj
    rw [hget] at hj
    split_ifs at hj with hi
    · obtain ⟨-, hstage⟩ := Call.mk.inj (Option.some.inj hj)
      cases hstage
    obtain ⟨other, hother, rfl⟩ := h.renames j request' answer' temporary' hj
    refine ⟨other, ?_, rfl⟩
    apply mem_filter.mpr
    refine ⟨hother, ?_⟩
    rw [decide_eq_true_eq]
    exact Ne.symm hi
  intro hready hnone
  have hlast : Latest s := by
    apply h.latest hready
    apply hnone.of_set hcall (by simp) rfl
  obtain ⟨rest, hrest⟩ : ∃ rest, s.queue = writing :: rest := by
    cases hqueue : s.queue with
    | nil =>
      rw [hqueue] at hmem
      cases hmem
    | cons first rest =>
      rw [hqueue] at hhead
      cases hhead
      exact ⟨rest, rfl⟩
  have hfilt : s.queue.filter (·.call ≠ writing.call) = rest := by
    have hdist := h.distinct
    rw [hrest, pairwise_cons] at hdist
    rw [hrest, filter_cons_of_neg (by simp), filter_eq_self]
    intro other hother
    rw [decide_eq_true_eq]
    exact (hdist.1 other hother).1.symm
  unfold Latest at hlast ⊢
  dsimp only
  rw [hfilt]
  rw [hrest] at hlast
  cases rest with
  | nil => apply hlast
  | cons next rest =>
    rw [List.getLast?_cons_cons] at hlast
    apply hlast

/-- In an orderly step nothing fails. -/
theorem Written.not_fails (h : Written s) (hord : Orderly sha256 s a) :
  ¬ Fails s a
  := by
  intro hfails
  cases a with
  | mkdir i ok now =>
    obtain rfl := hord.1
    cases hfails
  | write i ok left =>
    obtain rfl : ok := hord
    cases hfails
  | rename i ok =>
    obtain ⟨rfl, writing, hhead, rfl⟩ := hord
    rcases hfails with hfails | ⟨request, answer, temporary, hcall, hnone⟩
    · cases hfails
    · rw [(h.renaming (mem_of_head? hhead) hcall).2] at hnone
      cases hnone
  | _ => cases hfails

/-- A step in which nothing fails and nothing is overtaken keeps what is said of the file. -/
theorem Written.step (hmoves : Moves sha256 s a s') (hkept : Kept s) (h : Written s)
    (hord : Orderly sha256 s a) (hstor : Entries Storable s') :
  Written s'
  := by
  have hsame {i : ℕ} {request : Request} {stage stage' : Stage}
      (hcall : s.calls[i]? = some ⟨request, stage⟩) (hstage : ∀ answer, stage ≠ .directory answer)
      (hcalls : s'.calls = s.calls.set i ⟨request, stage'⟩) (hready : s'.ready = s.ready)
      (hlast : Latest s → Latest s') : s'.ready = .loaded → NoDirectory s' → Latest s' := by
    intro hload hnone
    apply hlast
    rw [hready] at hload
    apply h.latest hload (hnone.of_set hcall hstage hcalls)
  have hdir {i : ℕ} {request : Request} {stage : Stage}
      {answer : Option LocalPluginStateEntry} (hcall : s.calls[i]? = some ⟨request, stage⟩)
      (hcalls : s'.calls = s.calls.set i ⟨request, .directory answer⟩) :
      s'.ready = .loaded → NoDirectory s' → Latest s' := by
    intro _ hnone
    exfalso
    apply hnone i request answer
    rw [hcalls, getElem?_set_of_some hcall, if_pos rfl]
  cases hmoves with
  | call request => apply h.call request hstor
  | load ok hready => apply h.load hkept ok hready hstor
  | @settle _ i request stage result hcall hearly hres =>
    have hfileless : stage.Fileless := by
      cases stage <;> trivial
    have hnot : ∀ answer, stage ≠ .directory answer := by
      rintro answer rfl
      cases hearly
    apply h.setStage hstor (.settled result) hcall hfileless trivial rfl rfl rfl
    apply hsame hcall hnot rfl rfl
    intro hlast
    apply hlast
  | @require i request hcall hready =>
    apply h.setStage hstor (.required (Members.get s.plugins request.name)) hcall trivial
      trivial rfl rfl rfl
    apply hsame hcall (by simp) rfl rfl
    intro hlast
    apply hlast
  | discover hcall hready | remove hcall hready | put hcall hnext =>
    apply h.setStage hstor (.directory _) hcall trivial trivial rfl rfl rfl
    apply hdir hcall rfl
  | mkdir hcall =>
    obtain ⟨-, hlen, htemp⟩ := hord
    apply h.mkdir hcall hstor hlen htemp
  | write hcall =>
    apply h.write hcall hstor
    apply hsame hcall (by simp) rfl rfl
    intro hlast
    apply hlast
  | rename hcall hcont =>
    obtain ⟨-, writing, hhead, rfl⟩ := hord
    apply h.rename hcall hcont hstor hhead
  | fail hcall hlate hfails => cases h.not_fails hord hfails

/-! ### Runs -/

/-- What the store keeps in every run: market plugins are enabled only as approved, unless the file
had them so, approvals are granted, and the entries are those of the file with the changes of calls
that have not rejected for another reason than the disk. -/
structure Managed (s : State) : Prop where
  enabled : (∀ m ∈ s.loaded, EnabledApproved m.2) → ∀ m ∈ s.plugins, EnabledApproved m.2
  granted : ∀ m ∈ s.plugins, Granted s m.1 m.2
  changes : s.ready = .loaded →
    s.plugins = s.changes.foldl (fun plugins change => change.2.apply plugins) s.loaded
  rejected : ∀ (i : ℕ) (request : Request) (e : PluginError),
    s.calls[i]? = some ⟨request, .settled (.error e)⟩ → e ≠ .io → ∀ change ∈ s.changes, change.1 ≠ i

/-- No call is in progress. -/
def Idle (s : State) : Prop :=
  ∀ c ∈ s.calls, ∃ result, c.stage = .settled result

/-- The entries, and what every step keeps of them. -/
structure Approved (s : State) : Prop where
  kept : Kept s
  enabled :
    Entries (fun _ entry => (∀ m ∈ s.loaded, EnabledApproved m.2) → EnabledApproved entry) s
  granted : Entries (Granted s) s

theorem approved_start (file : Option Contents) :
  Approved (start file)
  := by
  constructor
  · apply kept_start
  all_goals apply entries_start

theorem Approved.step (h : Approved s) (hmoves : Moves sha256 s a s') :
  Approved s'
  := by
  constructor
  · apply h.kept.step sha256 hmoves
  · apply h.enabled.enabledApproved hmoves h.kept
  · apply h.granted.granted hmoves h.kept

theorem Approved.managed (h : Approved s) :
  Managed s
  := by
  constructor
  · intro hload m hm
    apply h.enabled.plugins m hm hload
  · apply h.granted.plugins
  · apply h.kept.replay
  rintro i request e hcall hio change hchange rfl
  obtain ⟨c, hc, hchg⟩ := h.kept.changed change hchange
  rw [hcall] at hc
  cases hc
  apply hio hchg

/-- When no call is in progress the file is that of the entries. -/
theorem Written.file (h : Written s) (hready : s.ready = .loaded) (hidle : Idle s) :
  parseFile s.file = some s.plugins
  := by
  have hset {i : ℕ} {c : Call} (hc : s.calls[i]? = some c) :
      ∃ result, c.stage = .settled result := hidle c (mem_of_getElem? hc)
  have hqueue : s.queue = [] := by
    apply eq_nil_iff_forall_not_mem.mpr
    intro writing hmem
    obtain ⟨request, answer, hbegun | ⟨hbegun, -⟩⟩ := h.begun writing hmem
    all_goals
      obtain ⟨result, hres⟩ := hset hbegun
      cases hres
  have hlast : Latest s := by
    apply h.latest hready
    intro i request answer hcall
    obtain ⟨result, hres⟩ := hset hcall
    cases hres
  unfold Latest at hlast
  rw [hqueue] at hlast
  apply hlast

/-- **The store manages the plugins in every run.** -/
theorem managed_of_run {sha256 : List Char → String} {file : Option Contents}
    {actions : List Action} {s : State} (h : run (step sha256) (start file) actions = some s) :
  Managed s ∧ (Guarded (step sha256) Fresh (start file) actions → Described s) ∧
    (Guarded (step sha256) (Orderly sha256) (start file) actions → s.ready = .loaded → Idle s →
      parseFile s.file = some s.plugins)
  := by
  refine ⟨?_, ?_, ?_⟩
  · have happr : Approved s := by
      apply run_invariant _ (approved_start file) h
      intro t a u ht hu
      apply ht.step (moves_of_step sha256 hu)
    apply happr.managed
  · intro hfresh
    apply hfresh.invariant _ _ h
    · intro t a u ht hok hu
      apply ht.step (moves_of_step sha256 hu) hok
    · intro name entry hentry
      cases hentry
  intro hord hready hidle
  have hwrote : Kept s ∧ Loaded s ∧ Written s := by
    apply hord.invariant _ _ h
    · rintro t a u ⟨hkept, hload, hwrote⟩ hok hu
      have hmoves := moves_of_step sha256 hu
      refine ⟨hkept.step sha256 hmoves, hload.step hmoves, ?_⟩
      apply hwrote.step hmoves hkept hok
      apply hwrote.storable.storable hmoves hload hok
    · exact ⟨kept_start file, forall_mem_nil _, written_start file⟩
  apply hwrote.2.2.file hready hidle

/-- A plugin that may write to the log. -/
def exampleManifest : PluginManifest where
  name := "volund-plugin-example"
  version := "1.0.0"
  permissions := .obj [("volund", .arr [.str "log.write"])]
  ui := none

/-- The digest of its permissions. -/
def exampleDigest : String :=
  "360677e9f1d6457d5e300783fc4a10a9419ade262a914eee4c8c9e8fa38677ff"

/-- It is installed from the market, approved and enabled. -/
def exampleRun : List Action :=
  [.call (.discover exampleManifest .market "/plugins/example"), .load true, .initialized 0,
    .mkdir 0 true 1, .write 0 true none, .rename 0 true,
    .call (.approve "volund-plugin-example" exampleDigest), .initialized 1, .decide 1,
    .mkdir 1 true 2, .write 1 true none, .rename 1 true,
    .call (.setEnabled "volund-plugin-example" true), .initialized 2, .decide 2,
    .mkdir 2 true 3, .write 2 true none, .rename 2 true]

theorem managed_of_run_example :
  ∃ s, run (step fun _ => exampleDigest) (start none) exampleRun = some s ∧ Managed s ∧
    (Guarded (step fun _ => exampleDigest) Fresh (start none) exampleRun → Described s) ∧
    (Guarded (step fun _ => exampleDigest) (Orderly fun _ => exampleDigest) (start none)
      exampleRun → s.ready = .loaded → Idle s → parseFile s.file = some s.plugins)
  := by
  have hrun : (run (step fun _ => exampleDigest) (start none) exampleRun).isSome := by
    decide +kernel
  obtain ⟨s, hs⟩ := isSome_iff_exists.mp hrun
  exact ⟨s, hs, managed_of_run hs⟩

/-- A plugin that comes with the application is approved without a call of `approve`. -/
theorem not_approved_by_call :
  ¬ ∀ actions s, run (step fun _ => exampleDigest) (start none) actions = some s →
    ∀ m ∈ s.plugins, ∀ hash, m.2.approvedPermissionHash = some hash →
      ∃ c ∈ s.calls, c.request = .approve m.1 hash
  := by
  intro h
  have hrun := h [.call (.discover exampleManifest .builtin "/plugins/example"), .load true,
    .initialized 0] _ rfl
  obtain ⟨c, hc, hreq⟩ := hrun _ (mem_singleton_self _) _ rfl
  obtain rfl := mem_singleton.mp hc
  cases hreq

end AppRuntime.PluginState
