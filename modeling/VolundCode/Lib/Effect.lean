import Mathlib.Data.List.Basic
import Mathlib.Order.Defs.Unbundled

/-!
# Effects

A computation that reads and writes a state and may fail keeps, when it fails, what it has
written so far. The state at the end satisfies a property, one for each way of ending, if the
state at the start satisfies its weakest precondition `wp`. The rules compute `wp` along the
constructors of a program, and reduce a loop over a list to one turn of it (`wp_forM`).

What a computation leaves alone is a preorder between the states before and after it: the
computations that stay `Within` a preorder are closed under all constructors of programs.
-/

/-- A computation over states `σ` that may fail with an error `ε`. -/
abbrev Effect (ε σ α : Type) : Type := EStateM ε σ α

namespace Effect

variable {ε σ α β : Type}

/-- The computation run from `s` ends with a result as `Q` allows, or fails as `E` allows. -/
def wp (x : Effect ε σ α) (Q : α → σ → Prop) (E : ε → σ → Prop) (s : σ) : Prop :=
  match x s with
  | .ok a t => Q a t
  | .error e t => E e t

/-- The result of something that may have failed, as a computation that writes nothing. -/
def ofExcept : Except ε α → Effect ε σ α
  | .ok a => pure a
  | .error e => throw e

variable {Q : α → σ → Prop} {E : ε → σ → Prop} {s : σ}

@[simp]
theorem wp_pure {a : α} :
  wp (pure a) Q E s ↔ Q a s
  := Iff.rfl

@[simp]
theorem wp_throw {e : ε} :
  wp (throw e : Effect ε σ α) Q E s ↔ E e s
  := Iff.rfl

@[simp]
theorem wp_get {Q : σ → σ → Prop} :
  wp (get : Effect ε σ σ) Q E s ↔ Q s s
  := Iff.rfl

@[simp]
theorem wp_modify {Q : PUnit → σ → Prop} {f : σ → σ} :
  wp (modify f : Effect ε σ PUnit) Q E s ↔ Q ⟨⟩ (f s)
  := Iff.rfl

@[simp]
theorem wp_bind {x : Effect ε σ β} {f : β → Effect ε σ α} :
  wp (x >>= f) Q E s ↔ wp x (fun b => wp (f b) Q E) E s
  := by
  change (match EStateM.bind x f s with | .ok a t => Q a t | .error e t => E e t) ↔ _
  unfold wp EStateM.bind
  cases x s with
  | ok b t | error e t => rfl

@[simp]
theorem wp_map {f : β → α} {x : Effect ε σ β} :
  wp (f <$> x) Q E s ↔ wp x (fun b => Q (f b)) E s
  := by
  rw [map_eq_pure_bind, wp_bind]
  rfl

@[simp]
theorem wp_ofExcept {x : Except ε α} :
  wp (ofExcept x) Q E s ↔
    match x with
    | .ok a => Q a s
    | .error e => E e s
  := by
  cases x with
  | ok a | error e => rfl

/-- A choice between two computations is made by what is chosen on. -/
theorem wp_ite {p : Prop} [Decidable p] {x y : Effect ε σ α} :
  wp (if p then x else y) Q E s ↔ if p then wp x Q E s else wp y Q E s
  := by
  split_ifs
  · rfl
  · rfl

/-- What ends as `Q` and `E` allow ends as anything weaker allows. -/
theorem wp_mono {x : Effect ε σ α} {Q' : α → σ → Prop} {E' : ε → σ → Prop}
    (h : wp x Q E s) (hQ : ∀ a t, Q a t → Q' a t) (hE : ∀ e t, E e t → E' e t) :
  wp x Q' E' s
  := by
  unfold wp at h ⊢
  cases hx : x s with
  | ok a t =>
    rw [hx] at h
    apply hQ _ _ h
  | error e t =>
    rw [hx] at h
    apply hE _ _ h

/-- What a computation guarantees twice it guarantees together. -/
theorem wp_and {x : Effect ε σ α} {Q' : α → σ → Prop} {E' : ε → σ → Prop}
    (h : wp x Q E s) (h' : wp x Q' E' s) :
  wp x (fun a t => Q a t ∧ Q' a t) (fun e t => E e t ∧ E' e t) s
  := by
  unfold wp at h h' ⊢
  cases hx : x s with
  | ok a t | error e t =>
    rw [hx] at h h'
    use h, h'

/-- The property of a computation at the state and result it ends with. -/
theorem wp_ok {x : Effect ε σ α} {a : α} {t : σ} (h : wp x Q E s) (hx : x s = .ok a t) :
  Q a t
  := by
  unfold wp at h
  rw [hx] at h
  apply h

/-- The property of a computation at the state and error it fails with. -/
theorem wp_error {x : Effect ε σ α} {e : ε} {t : σ} (h : wp x Q E s) (hx : x s = .error e t) :
  E e t
  := by
  unfold wp at h
  rw [hx] at h
  apply h

/-- A computation on a part of the state. -/
def focus {τ : Type} (part : σ → τ) (put : τ → σ → σ) (x : Effect ε τ α) : Effect ε σ α := fun s =>
  match x (part s) with
  | .ok a t => .ok a (put t s)
  | .error e t => .error e (put t s)

@[simp]
theorem wp_focus {τ : Type} {part : σ → τ} {put : τ → σ → σ} {x : Effect ε τ α} :
  wp (focus part put x) Q E s ↔ wp x (fun a t => Q a (put t s)) (fun e t => E e (put t s)) (part s)
  := by
  unfold wp focus
  cases x (part s) with
  | ok a t | error e t => rfl

/-- A loop over a list keeps a property of the elements done and the state, if each turn of it
does. -/
theorem wp_forM_after {I : List β → σ → Prop} {f : β → Effect ε σ PUnit} (done : List β)
    {xs : List β} (hturn : ∀ past x rest s, done ++ xs = past ++ x :: rest → I past s →
      wp (f x) (fun _ => I (past ++ [x])) E s)
    (hs : I done s) :
  wp (xs.forM f) (fun _ => I (done ++ xs)) E s
  := by
  induction xs generalizing done s with
  | nil => simpa using hs
  | cons x xs ih =>
  change wp (f x >>= fun _ => xs.forM f) _ _ _
  rw [wp_bind]
  apply wp_mono (hturn done x xs s rfl hs)
  · intro _ t ht
    rw [List.append_cons]
    apply ih (done ++ [x]) _ ht
    intro past y rest s' heq
    apply hturn past y rest s'
    rw [← heq, List.append_cons]
  · intro e t he
    apply he

/-- A loop over a list keeps a property of the elements done and the state, if each turn of it
does. -/
theorem wp_forM {I : List β → σ → Prop} {f : β → Effect ε σ PUnit} {xs : List β}
    (hturn : ∀ past x rest s, xs = past ++ x :: rest → I past s →
      wp (f x) (fun _ => I (past ++ [x])) E s)
    (hs : I [] s) :
  wp (xs.forM f) (fun _ => I xs) E s
  := wp_forM_after [] hturn hs

/-- A loop over a list keeps a property of the state, and what each turn of it finds out holds of
all elements. -/
theorem wp_forM_all {I : σ → Prop} {ok : β → Prop} {f : β → Effect ε σ PUnit} {xs : List β}
    (hturn : ∀ x ∈ xs, ∀ s, I s → wp (f x) (fun _ t => I t ∧ ok x) E s) (hs : I s) :
  wp (xs.forM f) (fun _ t => I t ∧ ∀ x ∈ xs, ok x) E s
  := by
  apply wp_forM (I := fun past t => I t ∧ ∀ x ∈ past, ok x)
  · intro past x rest t heq ht
    apply wp_mono (hturn x (by simp [heq]) t ht.1)
    · intro _ u hu
      use hu.1
      simp only [List.forall_mem_append, List.forall_mem_singleton]
      use ht.2, hu.2
    · intro _ _ he
      apply he
  · use hs
    simp

/-! ### Frames -/

/-- However the computation ends, the state it ends in is related to the one it started in. -/
def Within (R : σ → σ → Prop) (x : Effect ε σ α) : Prop :=
  ∀ s, wp x (fun _ => R s) (fun _ => R s) s

/-- What `f` sees of the two states is the same. -/
def Same {τ : Type} (f : σ → τ) (s t : σ) : Prop :=
  f t = f s

instance {τ : Type} (f : σ → τ) : IsPreorder σ (Same f) where
  refl _ := rfl
  trans _ _ _ h h' := Eq.trans h' h

namespace Within

variable {R : σ → σ → Prop} [IsPreorder σ R] {x : Effect ε σ β} {f : β → Effect ε σ α}

theorem pure (a : α) :
  Within R (Pure.pure a : Effect ε σ α)
  := fun s => refl_of R s

theorem throw (e : ε) :
  Within R (MonadExcept.throw e : Effect ε σ α)
  := fun s => refl_of R s

theorem get :
  Within R (MonadState.get : Effect ε σ σ)
  := fun s => refl_of R s

theorem ofExcept (a : Except ε α) :
  Within R (ofExcept a)
  := by
  cases a with
  | ok a => apply Within.pure
  | error e => apply Within.throw

omit [IsPreorder σ R] in
theorem modify {g : σ → σ} (h : ∀ s, R s (g s)) :
  Within R (modify g : Effect ε σ PUnit)
  := h

theorem bind (hx : Within R x) (hf : ∀ b, Within R (f b)) :
  Within R (x >>= f)
  := by
  intro s
  rw [wp_bind]
  apply wp_mono (hx s)
  · intro b t hst
    apply wp_mono (hf b t)
    all_goals
      intro _ u htu
      apply trans_of R hst htu
  · intro _ t hst
    apply hst

theorem forM {xs : List β} {g : β → Effect ε σ PUnit} (hg : ∀ b ∈ xs, Within R (g b)) :
  Within R (xs.forM g)
  := by
  intro s
  apply wp_forM (I := fun _ => R s)
  · intro past b rest t heq hst
    apply wp_mono (hg b (by simp [heq]) t)
    all_goals
      intro _ u htu
      apply trans_of R hst htu
  · apply refl_of

omit [IsPreorder σ R] in
/-- What is within a relation is within every weaker one. -/
theorem imp {R' : σ → σ → Prop} (h : ∀ s t, R s t → R' s t) (hx : Within R x) :
  Within R' x
  := fun s => wp_mono (hx s) (fun _ => h s) (fun _ => h s)

omit [IsPreorder σ R] in
/-- Where a computation stays within a preorder, it is enough to look at the states its start is
related to. -/
theorem mono {Q : β → σ → Prop} {E : ε → σ → Prop} {s : σ} (hx : Within R x)
    (hQ : ∀ b t, R s t → Q b t) (hE : ∀ e t, R s t → E e t) :
  wp x Q E s
  := wp_mono (hx s) hQ hE

end Within

/-! ### Results -/

/-- The result of the computation, when it has one, has the property, whatever the state it
starts in. -/
def Returns (P : α → Prop) (x : Effect ε σ α) : Prop :=
  ∀ s, wp x (fun a _ => P a) (fun _ _ => True) s

namespace Returns

variable {P : α → Prop} {x : Effect ε σ β} {f : β → Effect ε σ α}

theorem pure {a : α} (h : P a) :
  Returns P (Pure.pure a : Effect ε σ α)
  := fun _ => h

/-- A result that has a property has every weaker one. -/
theorem imp {P' : α → Prop} {x : Effect ε σ α} (hx : Returns P x) (h : ∀ a, P a → P' a) :
  Returns P' x
  := fun s => wp_mono (hx s) (fun a _ => h a) (fun _ _ h => h)

/-- What is bound to a result knows what the result is. -/
theorem bind_of {O : β → Prop} (hx : Returns O x) (hf : ∀ b, O b → Returns P (f b)) :
  Returns P (x >>= f)
  := by
  intro s
  rw [wp_bind]
  apply wp_mono (hx s)
  · intro b t hb
    apply hf b hb t
  · intro _ _ _
    exact True.intro

/-- Every computation returns something. -/
theorem trivial :
  Returns (fun _ => True) x
  := by
  intro s
  unfold wp
  split
  all_goals exact True.intro

theorem bind (hf : ∀ b, Returns P (f b)) :
  Returns P (x >>= f)
  := bind_of trivial fun b _ => hf b

end Returns

/-! ### Success -/

/-- The computation does not fail, whatever the state it starts in. -/
def Succeeds (x : Effect ε σ α) : Prop :=
  ∀ s, wp x (fun _ _ => True) (fun _ _ => False) s

namespace Succeeds

variable {x : Effect ε σ β} {f : β → Effect ε σ α}

theorem pure (a : α) :
  Succeeds (Pure.pure a : Effect ε σ α)
  := fun _ => True.intro

theorem get :
  Succeeds (MonadState.get : Effect ε σ σ)
  := fun _ => True.intro

theorem modify (g : σ → σ) :
  Succeeds (modify g : Effect ε σ PUnit)
  := fun _ => True.intro

theorem bind (hx : Succeeds x) (hf : ∀ b, Succeeds (f b)) :
  Succeeds (x >>= f)
  := by
  intro s
  rw [wp_bind]
  apply wp_mono (hx s)
  · intro b t _
    apply hf b t
  · intro _ _ h
    apply h

theorem forM {xs : List β} {g : β → Effect ε σ PUnit} (hg : ∀ b ∈ xs, Succeeds (g b)) :
  Succeeds (xs.forM g)
  := by
  intro s
  apply wp_forM (I := fun _ _ => True)
  · intro past b rest t heq _
    apply hg b (by simp [heq]) t
  · exact True.intro

/-- What does not fail ends as it does when it does not fail. -/
theorem wp (hx : Succeeds x) {Q : β → σ → Prop} {E E' : ε → σ → Prop} {s : σ} (h : wp x Q E s) :
  wp x Q E' s
  := by
  apply wp_mono (wp_and h (hx s))
  · intro _ _ hQ
    apply hQ.1
  · intro _ _ hE
    apply hE.2.elim

end Succeeds

end Effect
