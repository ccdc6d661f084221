import VolundCode.Storage.MemoryAtomicity

/-!
# The ids of an import

A record that is created by an import keeps its id, unless a record is present under it; with the
strategy to rename it then gets the first id with a suffix that is free. Free is what no record
that the scope sees has, and no record that has been planned before. So the search comes to an end
(`freeId_spec`), but the id may be that of a later record of the document, which keeps it, and that
of a record that the scope does not see. If neither happens, the ids are fresh, and no step of the
plan meets a conflict (`freshIds_iff`).
-/

namespace Storage

open Run List

/-! ### Fresh ids -/

section Fresh

variable (env : ServiceExternals) (records : MemoryRecords) (scope : MemoryRecordScope)

/-- A record can be created under the id: one that is there is a tombstone that the scope sees. -/
def Creatable (id : String) : Prop :=
  ∀ record ∈ records.get id, record.isDeleted ∧ env.canAccess scope record.scope

/-- The ids under which a plan creates records. -/
def createdIds (plan : List PlannedImport) : List String :=
  (plan.filter fun operation => operation.action = .create).map PlannedImport.id

/-- A call with which a step of a plan is applied: the answer of the hooks, the clock, and how the
save ends. -/
structure ImportCall where
  operation : PlannedImport
  verdict : Except MemoryError Unit
  now : ℤ
  time : String
  outcome : Outcome

/-- One call of an import, as long as none throws. -/
def importCall (actorId : String) (stored : MemoryRecords) (call : ImportCall) :
    Option MemoryRecords :=
  let result := attempt env stored call.verdict call.now
    (call.operation.mutation scope actorId call.time) call.outcome
  if result.2 then some result.1 else none

/-- The result is not a conflict. -/
def NoConflict {α : Type} (x : Except MemoryError α) : Prop :=
  ∀ message, x ≠ .error (memoryConflict message)

/-- The ids of the records to be created are pairwise distinct, and no record is in their way. So no
call of an import fails with a conflict, if the hooks do not, and only what the plan names is
touched. -/
structure FreshIds (actorId : String) (plan : List PlannedImport) : Prop where
  nodup : (createdIds plan).Nodup
  creatable : ∀ id ∈ createdIds plan, Creatable env records scope id
  admitted : ∀ calls call rest stored, (calls ++ call :: rest).map ImportCall.operation = plan →
    run (importCall env scope actorId) records calls = some stored → NoConflict call.verdict →
    NoConflict (evaluate env stored call.verdict call.now
      (call.operation.mutation scope actorId call.time))
  others : ∀ calls stored, calls.map ImportCall.operation <+: plan →
    run (importCall env scope actorId) records calls = some stored →
    ∀ id ∉ plan.map PlannedImport.id, stored.get id = records.get id

/-- The ids of the records of a document that are not present. -/
def absentIds (sources : List MemoryRecord) : List String :=
  (sources.filter fun source => (presentTo env records scope source.id).isNone).map
    MemoryRecord.id

/-- No record that the scope does not see is in the way of a record that is to be created. A record
that is to be renamed does not get the id of a later one that keeps its own: `taken` are the ids of
the records before it that keep theirs. -/
def Clear (strategy : ImportStrategy) : List String → List MemoryRecord → Prop
  | _, [] => True
  | taken, source :: sources =>
    match presentTo env records scope source.id with
    | none =>
      Creatable env records scope source.id ∧ Clear strategy (source.id :: taken) sources
    | some _ =>
      (strategy = .rename → ∀ k, FirstFree env records scope taken source.id k →
        Creatable env records scope (renamedId source.id (k + 1)) ∧
          renamedId source.id (k + 1) ∉ absentIds env records scope sources) ∧
        Clear strategy taken sources

end Fresh

/-! ### Plans -/

section Plans

variable {env : ServiceExternals} {records : MemoryRecords} {scope : MemoryRecordScope}
  {strategy : ImportStrategy} {source : MemoryRecord} {sources : List MemoryRecord}
  {reserved taken : List String} {id : String}

theorem createdIds_absent (h : presentTo env records scope source.id = none) :
  createdIds (planImport env records scope strategy reserved (source :: sources)) =
    source.id :: createdIds (planImport env records scope strategy (source.id :: reserved) sources)
  := by
  simp [planImport, planOne, h, createdIds]

theorem createdIds_renamed {existing : MemoryRecord}
    (h : presentTo env records scope source.id = some existing) :
  createdIds (planImport env records scope .rename reserved (source :: sources)) =
    freeId env records scope reserved source.id :: createdIds (planImport env records scope .rename
        (freeId env records scope reserved source.id :: reserved) sources)
  := by
  simp [planImport, planOne, h, createdIds]

theorem createdIds_kept {existing : MemoryRecord} (hstrat : strategy ≠ .rename)
    (h : presentTo env records scope source.id = some existing) :
  createdIds (planImport env records scope strategy reserved (source :: sources)) =
    createdIds (planImport env records scope strategy reserved sources)
  := by
  cases strategy with
  | skip | overwrite => simp [planImport, planOne, h, createdIds]
  | rename => exact absurd rfl hstrat

/-- An id that is reserved is created again only for a record that keeps its own. -/
theorem mem_createdIds_iff (h : id ∈ reserved) :
  id ∈ createdIds (planImport env records scope strategy reserved sources) ↔
    id ∈ absentIds env records scope sources
  := by
  induction sources generalizing reserved with
  | nil => rfl
  | cons source sources ih =>
  cases hpres : presentTo env records scope source.id with
  | none =>
    rw [createdIds_absent hpres, mem_cons, ih (mem_cons_of_mem _ h)]
    simp [absentIds, hpres]
  | some existing =>
  have habsent : absentIds env records scope (source :: sources) =
      absentIds env records scope sources := by simp [absentIds, hpres]
  rw [habsent]
  by_cases hstrat : strategy = .rename
  · subst hstrat
    have hne : id ≠ freeId env records scope reserved source.id := by
      rintro rfl
      apply (free_freeId reserved source.id).1 h
    rw [createdIds_renamed hpres, mem_cons, ih (mem_cons_of_mem _ h)]
    simp [hne]
  · rw [createdIds_kept hstrat hpres, ih h]

/-- The ids reserved for renamed records are in the way of no other record that is renamed. -/
def Reserves (taken reserved : List String) (sources : List MemoryRecord) : Prop :=
  ∀ source ∈ sources, ∀ k, renamedId source.id k ∈ reserved ↔ renamedId source.id k ∈ taken

theorem Reserves.firstFree_iff (h : Reserves taken reserved (source :: sources)) {k : ℕ} :
  FirstFree env records scope reserved source.id k ↔ FirstFree env records scope taken source.id k
  := by
  unfold FirstFree FreeId
  simp only [h source mem_cons_self]

/-- The ids of a plan are fresh in themselves and no record is in their way if the document is
clear, and only then. -/
theorem nodup_and_creatable_iff (hnodup : (sources.map MemoryRecord.id).Nodup)
    (h : Reserves taken reserved sources) :
  (createdIds (planImport env records scope strategy reserved sources)).Nodup ∧
      (∀ id ∈ createdIds (planImport env records scope strategy reserved sources),
        Creatable env records scope id) ↔
    Clear env records scope strategy taken sources
  := by
  induction sources generalizing taken reserved with
  | nil => simp [planImport, createdIds, Clear]
  | cons source sources ih =>
  rw [map_cons, nodup_cons] at hnodup
  have htail : Reserves taken reserved sources := fun s hs => h s (mem_cons_of_mem _ hs)
  unfold Clear
  cases hpres : presentTo env records scope source.id with
  | none =>
    have hnot : source.id ∉ absentIds env records scope sources := by
      intro hmem
      apply hnodup.1
      apply (List.filter_sublist.map _).subset hmem
    have hreserves : Reserves (source.id :: taken) (source.id :: reserved) sources := by
      intro s hs k
      rw [mem_cons, mem_cons, htail s hs]
    rw [createdIds_absent hpres, nodup_cons, forall_mem_cons,
      mem_createdIds_iff mem_cons_self, ← ih hnodup.2 hreserves]
    tauto
  | some existing =>
  by_cases hstrat : strategy = .rename
  · subst hstrat
    obtain ⟨k, hfirst, hid⟩ : ∃ k, FirstFree env records scope reserved source.id k ∧
        freeId env records scope reserved source.id = renamedId source.id (k + 1) :=
      freeId_spec reserved source.id
    have hreserves : Reserves taken (freeId env records scope reserved source.id :: reserved)
        sources := by
      intro s hs j
      rw [mem_cons, htail s hs, hid, or_iff_right]
      intro heq
      apply hnodup.1
      rw [← (renamedId_inj heq).1]
      apply mem_map_of_mem hs
    rw [createdIds_renamed hpres, nodup_cons, forall_mem_cons,
      mem_createdIds_iff mem_cons_self, ← ih hnodup.2 hreserves, hid]
    constructor
    · rintro ⟨⟨hnot, hrest⟩, hcreat, hoth⟩
      refine ⟨fun _ j hj => ?_, hrest, hoth⟩
      obtain rfl := (h.firstFree_iff.mpr hj).unique hfirst
      use hcreat
    · rintro ⟨hrenamed, hrest, hoth⟩
      obtain ⟨hcreat, hnot⟩ := hrenamed rfl k (h.firstFree_iff.mp hfirst)
      use ⟨hnot, hrest⟩, hcreat
  · rw [createdIds_kept hstrat hpres, ih hnodup.2 htail]
    simp [hstrat]

end Plans

/-! ### Conflicts -/

section Conflicts

variable {env : ServiceExternals} {records : MemoryRecords} {scope : MemoryRecordScope}
  {verdict : Except MemoryError Unit} {now : ℤ} {α β : Type}

theorem NoConflict.ok (a : α) :
  NoConflict (.ok a)
  := by
  intro _ h
  cases h

theorem NoConflict.error {e : MemoryError} (h : e.code ≠ "memory_conflict") :
  NoConflict (.error e : Except MemoryError α)
  := by
  intro message heq
  apply h
  rw [Except.error.inj heq]
  rfl

theorem NoConflict.notFound (message : String) :
  NoConflict (.error (memoryNotFound message) : Except MemoryError α)
  := by
  apply NoConflict.error
  change "memory_not_found" ≠ "memory_conflict"
  decide

theorem NoConflict.bind {x : Except MemoryError α} {f : α → Except MemoryError β}
    (hx : NoConflict x) (hf : ∀ a, NoConflict (f a)) :
  NoConflict (x >>= f)
  := by
  cases x with
  | ok a => apply hf
  | error e =>
    intro message h
    apply hx message
    rw [Except.error.inj h]

theorem NoConflict.ite {p : Prop} [Decidable p] {x y : Except MemoryError α}
    (hx : p → NoConflict x) (hy : ¬ p → NoConflict y) :
  NoConflict (if p then x else y)
  := by
  split
  · next h => apply hx h
  · next h => apply hy h

/-- The checks of a scope, of a content, of tags, of attachments and of a time do not speak of
conflicts. -/
theorem noConflict_checks (env : ServiceExternals) (scope : MemoryRecordScope) (id content : String) (tags : List String)
    (attachments : List MemoryRecordAttachment) (time : ℤ) :
  NoConflict (validateScope scope) ∧ NoConflict (builtinPreWrite env.checks id content) ∧
    NoConflict (normalizeTags tags) ∧ NoConflict (normalizeAttachments env.checks attachments) ∧
    NoConflict (isoDate time)
  := by
  refine ⟨?_, ?_, ?_, ?_, ?_⟩
  · unfold validateScope
    split
    all_goals
      split_ifs
      all_goals first | apply NoConflict.ok | exact NoConflict.error (by decide)
  · unfold builtinPreWrite
    split_ifs
    all_goals first | apply NoConflict.ok | exact NoConflict.error (by decide)
  · unfold normalizeTags
    dsimp only
    split_ifs
    all_goals first | apply NoConflict.ok | exact NoConflict.error (by decide)
  · unfold normalizeAttachments
    split_ifs
    all_goals first | apply NoConflict.ok | exact NoConflict.error (by decide)
  unfold isoDate
  split_ifs
  · apply NoConflict.ok
  · exact NoConflict.error (by decide)

/-- What is created where nothing is in its way meets no conflict. -/
theorem noConflict_evaluateCreate {input : NewMemoryRecord} (hverd : NoConflict verdict)
    (h : Creatable env records input.scope input.id) :
  NoConflict (evaluateCreate env records verdict now input)
  := by
  obtain ⟨hscope, hcont, htags, hatts, htime⟩ :=
    noConflict_checks env input.scope input.id input.content
      (input.tags.getD []) (input.attachments.getD []) now
  have hmade : NoConflict (createRecord env verdict now input) := by
    apply NoConflict.bind (hcont.bind fun _ => hverd)
    intro _
    apply htime.bind
    intro _
    apply hatts.bind
    intro _
    apply htags.bind
    intro _
    apply NoConflict.ok
  apply hscope.bind
  intro _
  split
  · apply hmade
  rename_i existing hex
  obtain ⟨hdel, hacc⟩ := h existing hex
  apply htags.bind
  intro tags
  apply hatts.bind
  intro attachments
  apply NoConflict.ite
  · intro _
    apply NoConflict.ok
  · intro _
    simp only [hdel, hacc, Bool.not_true, Bool.or_self, Bool.false_eq_true, if_false]
    apply hmade

/-- An update that expects no version meets no conflict. -/
theorem noConflict_evaluateUpdate {id : String} {patch : MemoryPatch} (hverd : NoConflict verdict) :
  NoConflict (evaluateUpdate env records verdict now scope id patch none)
  := by
  have hchecks (tags : List String) (attachments : List MemoryRecordAttachment) (time : ℤ) :=
    noConflict_checks env scope id (patch.content.getD "") tags attachments time
  have hrequire : NoConflict (require env records scope id) := by
    apply (hchecks [] [] 0).1.bind
    intro _
    split
    · split_ifs
      · apply NoConflict.ok
      · apply NoConflict.notFound
    · apply NoConflict.notFound
  apply hrequire.bind
  intro current
  have hpres : NoConflict (checkPresent current) := by
    unfold checkPresent
    split_ifs
    · apply NoConflict.notFound
    · apply NoConflict.ok
  have hadmit : NoConflict (admitPatch env verdict id patch) := by
    unfold admitPatch
    cases hcont : patch.content with
    | none => apply NoConflict.ok
    | some content =>
      have hpre := (hchecks [] [] 0).2.1
      rw [hcont] at hpre
      apply hpre.bind fun _ => hverd
  have htags : NoConflict (patchedTags current patch) := by
    unfold patchedTags
    split
    · next tags _ => apply (hchecks tags [] 0).2.2.1
    · apply NoConflict.ok
  have hatts : NoConflict (patchedAttachments env current patch) := by
    unfold patchedAttachments
    split
    · next attachments _ => apply (hchecks [] attachments 0).2.2.2.1
    · apply NoConflict.ok
  have htime : NoConflict (nextTimestamp env now current.updatedAt) := by
    unfold nextTimestamp
    split
    · exact NoConflict.error (by decide)
    · apply (hchecks [] [] _).2.2.2.2
  apply hpres.bind
  intro _
  apply (NoConflict.ok ()).bind
  intro _
  apply hadmit.bind
  intro _
  apply htags.bind
  intro _
  apply hatts.bind
  intro _
  apply NoConflict.ite
  · intro _
    apply NoConflict.ok
  intro _
  apply htime.bind
  intro _
  apply NoConflict.ok

/-- A step of a plan meets no conflict, if nothing is in the way of what it creates. -/
theorem noConflict_mutation {operation : PlannedImport} {actorId time : String}
    (hverd : NoConflict verdict)
    (h : operation.action ≠ .overwrite → Creatable env records scope operation.id) :
  NoConflict (evaluate env records verdict now (operation.mutation scope actorId time))
  := by
  unfold PlannedImport.mutation
  by_cases hover : operation.action = .overwrite
  · rw [if_pos hover]
    apply noConflict_evaluateUpdate hverd
  · rw [if_neg hover]
    apply noConflict_evaluateCreate hverd (h hover)

/-- Calls touch only the records that they are about. -/
theorem get_of_run {actorId : String} {calls : List ImportCall} {stored : MemoryRecords}
    (hrun : run (importCall env scope actorId) records calls = some stored) {id : String}
    (hid : id ∉ calls.map fun call => call.operation.id) :
  stored.get id = records.get id
  := by
  induction calls generalizing records with
  | nil =>
    cases hrun
    rfl
  | cons call calls ih =>
  obtain ⟨next, hstep, hrest⟩ := run_cons_eq_some.mp hrun
  rw [map_cons, mem_cons, not_or] at hid
  rw [ih hrest hid.2]
  unfold importCall at hstep
  dsimp only at hstep
  split_ifs at hstep
  cases hstep
  apply attempt_get_of_ne target_mutation hid.1

end Conflicts

/-! ### Plans with fresh ids -/

/-- The ids that an import gives to the records it creates are fresh if no record that the scope
does not see is in their way and no record keeps the id that one before it has been renamed to, and
only then. The search for an id comes to an end in any case. -/
theorem freshIds_iff (env : ServiceExternals) (records : MemoryRecords)
    (scope : MemoryRecordScope) (strategy : ImportStrategy) (actorId : String)
    {sources : List MemoryRecord} (hnodup : (sources.map MemoryRecord.id).Nodup) :
  (∀ reserved id, ∃ k, FirstFree env records scope reserved id k ∧
      freeId env records scope reserved id = renamedId id (k + 1)) ∧
    (FreshIds env records scope actorId (planImport env records scope strategy [] sources) ↔
      Clear env records scope strategy [] sources)
  := by
  have hiff : _ ↔ Clear env records scope strategy [] sources :=
    nodup_and_creatable_iff hnodup (fun _ _ _ => Iff.rfl : Reserves [] [] sources)
  refine ⟨freeId_spec, fun h => hiff.mp ⟨h.nodup, h.creatable⟩, fun h => ?_⟩
  obtain ⟨hids, hcreat⟩ := hiff.mpr h
  have hdist : (planImport env records scope strategy [] sources).Pairwise fun p q =>
      p.id = q.id → p.action = .create ∧ q.action = .create :=
    planImport_distinct strategy [] hnodup
  have hplausible : ∀ operation ∈ planImport env records scope strategy [] sources,
      operation.Plausible env records scope :=
    planImport_sound strategy [] sources
  generalize planImport env records scope strategy [] sources = plan at *
  refine ⟨hids, hcreat, ?_, ?_⟩
  · rintro calls call rest stored rfl hrun hverd
    apply noConflict_mutation hverd
    intro hover
    rw [map_append, map_cons] at hdist hplausible hids hcreat
    have hmade : call.operation.action = .create := by
      rcases hplausible call.operation (by simp) with ⟨hmade, -⟩ | ⟨hnot, -⟩
      · apply hmade
      · exact absurd hnot hover
    have hmem : call.operation.id ∈ createdIds (calls.map ImportCall.operation ++
        call.operation :: rest.map ImportCall.operation) := by simp [createdIds, hmade]
    have hget : stored.get call.operation.id = records.get call.operation.id := by
      apply get_of_run hrun
      intro hpre
      obtain ⟨earlier, hearly, hid⟩ := mem_map.mp hpre
      have hpair := (pairwise_append.mp hdist).2.2 _ (mem_map_of_mem hearly) _ mem_cons_self
      simp only [createdIds, filter_append, map_append, filter_cons, hmade] at hids
      apply (disjoint_of_nodup_append hids) (a := call.operation.id)
      · rw [← hid]
        apply mem_map_of_mem
        apply mem_filter.mpr
        use mem_map_of_mem hearly
        simpa using (hpair hid).1
      · simp
    unfold Creatable
    rw [hget]
    apply hcreat _ hmem
  rintro calls stored hcalls hrun id hid
  apply get_of_run hrun
  intro hmem
  apply hid
  obtain ⟨call, hcall, rfl⟩ := mem_map.mp hmem
  apply mem_map_of_mem
  apply hcalls.subset (mem_map_of_mem hcall)

/-- A document with a note that is there and another one is imported with fresh ids. -/
theorem freshIds_iff_other :
  FreshIds sampleService oneNote sampleScope "cli"
    (planImport sampleService oneNote sampleScope .rename []
      [plainNote "note" "second", plainNote "other" "third"])
  := by
  have hfirst : FirstFree sampleService oneNote sampleScope [] "note" 0 := by
    refine ⟨⟨not_mem_nil, ?_⟩, fun j hj => absurd hj (Nat.not_lt_zero j)⟩
    decide +kernel
  apply (freshIds_iff sampleService oneNote sampleScope .rename "cli" (by decide)).2.mpr
  refine ⟨fun _ k hk => ?_, ?_, trivial⟩
  · obtain rfl := hk.unique hfirst
    constructor
    · intro record hrec
      cases hrec
    · decide +kernel
  · intro record hrec
    cases hrec

/-- The document has the note that is there, and another one with the id that the first one is
renamed to. -/
theorem not_freshIds :
  ([plainNote "note" "second", plainNote "note-import-1" "third"].map MemoryRecord.id).Nodup ∧
    ¬ FreshIds sampleService oneNote sampleScope "cli"
      (planImport sampleService oneNote sampleScope .rename []
        [plainNote "note" "second", plainNote "note-import-1" "third"])
  := by
  use by decide
  intro h
  apply absurd h.nodup
  decide +kernel

end Storage
