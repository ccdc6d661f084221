import VolundCode.Gateway.ObserveTurn

/-!
# Holding the queue for a turn

A turn that is submitted over a WebSocket holds the lock of the queue. A listener for its end is
attached once the hub has accepted it, and releases the lock at the first event that ends any turn.
The lock is kept for the turn just if the turn does not end before the listener is attached, and no
other turn ends between and lets the lock go before the turn ends itself (`keepsTurn_iff`). If the
turn ends before it is accepted, the lock is kept beyond it (`not_keepsTurn`).
-/

namespace Gateway

open List Or

/-! ### The lock -/

/-- What is done with the lock of a turn: the hub has not answered yet, the listener is attached,
the release is due, or the lock is released. -/
inductive Hold where
  | submitting
  | listening
  | releasing
  | released
  deriving DecidableEq, Repr

/-- What happens while a turn is submitted and runs: the hub accepts it, an event is delivered, the
timer of the hold limit fires, or the macrotask of `setTimeout` runs. -/
inductive Delivery where
  | accepted
  | event (e : GatewayEnvelope)
  | limit
  | macrotask

/-- The events at which the listener releases the lock. -/
def GatewayEnvelope.endsTurn (e : GatewayEnvelope) : Bool :=
  e.is "core" "turn.completed" || e.is "core" "turn.aborted" || e.is "view" "turn.failed"

/-- `hub.submit` and `holdQueueUntilTurnEnd`. Timers that have not been set do not fire. -/
def hold : Hold → Delivery → Hold
  | .submitting, .accepted => .listening
  | .listening, .event e => if e.endsTurn then .releasing else .listening
  | .listening, .limit => .released
  | .releasing, .macrotask => .released
  | h, _ => h

/-- The lock after deliveries. -/
def holdAfter (h : Hold) (ds : List Delivery) : Hold :=
  ds.foldl hold h

/-! ### A turn and its lock -/

section Turn

-- The events of the turn that holds the lock.
variable (own : GatewayEnvelope → Bool)

/-- The delivery is the end of the turn. -/
def Delivery.ends : Delivery → Bool
  | .event e => e.endsTurn && own e
  | _ => false

/-- The delivery is the end of another turn. -/
def Delivery.endsOther : Delivery → Bool
  | .event e => e.endsTurn && !own e
  | _ => false

/-- The limit was reached. -/
def LimitReached (ds : List Delivery) : Prop :=
  ∃ before after, ds = before ++ .limit :: after ∧ holdAfter .submitting before = .listening

/-- The lock lives as long as the turn: it is released only after the end of the turn or at the
limit, and the release is due as soon as the turn has been accepted and has ended. -/
structure KeepsTurn (ds : List Delivery) : Prop where
  kept : ∀ before after, ds = before ++ after → holdAfter .submitting before = .released →
    (∃ d ∈ before, d.ends own) ∨ LimitReached before
  prompt : ∀ before after, ds = before ++ after → .accepted ∈ before → (∃ d ∈ before, d.ends own) →
    holdAfter .submitting before = .releasing ∨ holdAfter .submitting before = .released

/-- The deliveries before the turn is accepted and behind. -/
def AcceptedAt (ds before after : List Delivery) : Prop :=
  ds = before ++ .accepted :: after ∧ .accepted ∉ before

/-- The turn does not end before it is accepted, and if another turn ends before the macrotask that
would release the lock, the turn ends before that too or the limit was reached. -/
structure Fits (ds : List Delivery) : Prop where
  early : ∀ before after, AcceptedAt ds before after → ∀ d ∈ before, d.ends own = false
  others : ∀ before after, AcceptedAt ds before after → ∀ start d middle rest,
    after = start ++ d :: (middle ++ .macrotask :: rest) → d.endsOther own →
    (∃ d ∈ start ++ middle, d.ends own) ∨ .limit ∈ start

/-! ### The steps of the lock -/

theorem holdAfter_append (h : Hold) (ds es : List Delivery) :
  holdAfter h (ds ++ es) = holdAfter (holdAfter h ds) es
  := foldl_append

/-- A lock that is released stays released. -/
theorem holdAfter_released (ds : List Delivery) :
  holdAfter .released ds = .released
  := by
  induction ds with
  | nil => rfl
  | cons d ds ih => exact ih

/-- A release that is due is done by the next macrotask. -/
theorem holdAfter_releasing (ds : List Delivery) :
  .macrotask ∈ ds ∧ holdAfter .releasing ds = .released ∨
    .macrotask ∉ ds ∧ holdAfter .releasing ds = .releasing
  := by
  induction ds with
  | nil => exact inr ⟨not_mem_nil, rfl⟩
  | cons d ds ih =>
    cases d with
    | macrotask => exact inl ⟨mem_cons_self, holdAfter_released ds⟩
    | accepted | event | limit => simpa [holdAfter, hold] using ih

variable {ds : List Delivery}

/-- Nothing is done before the turn is accepted. -/
theorem holdAfter_submitting (h : .accepted ∉ ds) :
  holdAfter .submitting ds = .submitting
  := by
  induction ds with
  | nil => rfl
  | cons d ds ih =>
  rw [mem_cons, not_or] at h
  obtain ⟨hd, hds⟩ := h
  cases d with
  | accepted => exact absurd rfl hd
  | event | limit | macrotask => exact ih hds

/-- The delivery at which the listener lets go. -/
def Delivery.stops : Delivery → Bool
  | .event e => e.endsTurn
  | .limit => true
  | _ => false

theorem holdAfter_listening (h : ∀ d ∈ ds, d.stops = false) :
  holdAfter .listening ds = .listening
  := by
  induction ds with
  | nil => rfl
  | cons d ds ih =>
  obtain ⟨hd, hds⟩ := forall_mem_cons.mp h
  cases d with
  | limit => cases hd
  | event e =>
    have hstep : hold .listening (.event e) = .listening := if_neg (by simpa [Delivery.stops] using hd)
    change holdAfter (hold .listening (.event e)) ds = .listening
    rw [hstep, ih hds]
  | accepted | macrotask => exact ih hds

/-- An event that ends a turn makes the release due. -/
theorem hold_of_endsTurn {e : GatewayEnvelope} (he : e.endsTurn) :
  hold .listening (.event e) = .releasing
  := if_pos he

theorem holdAfter_accepted {before after : List Delivery} (h : AcceptedAt ds before after) :
  holdAfter .submitting ds = holdAfter .listening after
  := by
  rw [h.1, holdAfter_append, holdAfter_submitting h.2]
  rfl

/-- The turn is accepted at some delivery, if it is. -/
theorem exists_acceptedAt (h : .accepted ∈ ds) :
  ∃ before after, AcceptedAt ds before after
  := by
  induction ds with
  | nil => cases h
  | cons d ds ih =>
  by_cases hd : d = .accepted
  · exact ⟨[], ds, by rw [hd]; rfl, not_mem_nil⟩
  obtain ⟨before, after, rfl, hpre⟩ := ih ((mem_cons.mp h).resolve_left (Ne.symm hd))
  refine ⟨d :: before, after, rfl, ?_⟩
  rw [mem_cons, not_or]
  exact ⟨Ne.symm hd, hpre⟩

variable {own}

variable {d : Delivery}

theorem ends_event (h : d.ends own) :
  ∃ e, d = .event e ∧ e.endsTurn
  := by
  cases d with
  | event e => exact ⟨e, rfl, (Bool.and_eq_true_iff.mp h).1⟩
  | accepted | limit | macrotask => cases h

theorem endsOther_event (h : d.endsOther own) :
  ∃ e, d = .event e ∧ e.endsTurn
  := by
  cases d with
  | event e => exact ⟨e, rfl, (Bool.and_eq_true_iff.mp h).1⟩
  | accepted | limit | macrotask => cases h

/-- An event that ends a turn ends this one or another. -/
theorem ends_or_endsOther {e : GatewayEnvelope} (h : e.endsTurn) :
  (Delivery.event e).ends own ∨ (Delivery.event e).endsOther own
  := by
  rw [Delivery.ends, Delivery.endsOther, h]
  cases own e with
  | true => exact inl rfl
  | false => exact inr rfl

/-- The lock is let go where the listener stops. -/
theorem stops_cases (h : holdAfter .listening ds ≠ .listening) :
  ∃ start d rest, ds = start ++ d :: rest ∧ d.stops ∧ ∀ x ∈ start, x.stops = false
  := by
  rcases exists_first Delivery.stops ds with hall | hfirst
  · exact absurd (holdAfter_listening hall) h
  · exact hfirst

/-! ### When the lock is kept -/

theorem Fits.kept (h : Fits own ds) {before after : List Delivery}
    (hds : ds = before ++ after) (hfreed : holdAfter .submitting before = .released) :
  (∃ d ∈ before, d.ends own) ∨ LimitReached before
  := by
  have hacc : .accepted ∈ before := by
    by_contra hnone
    rw [holdAfter_submitting hnone] at hfreed
    cases hfreed
  obtain ⟨first, behind, hat⟩ := exists_acceptedAt hacc
  rw [holdAfter_accepted hat] at hfreed
  obtain ⟨start, d, rest, hbehind, hd, hstart⟩ := stops_cases (by rw [hfreed]; decide)
  obtain ⟨rfl, hfirst⟩ := hat
  subst hbehind
  cases d with
  | accepted | macrotask => cases hd
  | limit =>
    right
    refine ⟨first ++ .accepted :: start, rest, by simp, ?_⟩
    rw [holdAfter_accepted ⟨rfl, hfirst⟩, holdAfter_listening hstart]
  | event e =>
  left
  rw [holdAfter_append, holdAfter_listening hstart] at hfreed
  change holdAfter (hold .listening (.event e)) rest = .released at hfreed
  rw [hold_of_endsTurn hd] at hfreed
  rcases holdAfter_releasing rest with ⟨hmacrotask, -⟩ | ⟨-, hdue⟩
  · rcases @ends_or_endsOther own _ hd with hown | hother
    · exact ⟨.event e, by simp, hown⟩
    obtain ⟨middle, late, rfl⟩ := append_of_mem hmacrotask
    rcases h.others first (start ++ .event e :: (middle ++ .macrotask :: (late ++ after)))
        ⟨by rw [hds]; simp, hfirst⟩ start (.event e) middle (late ++ after) rfl hother with
      ⟨x, hx, hends⟩ | hlimit
    · refine ⟨x, ?_, hends⟩
      rcases mem_append.mp hx with hx | hx
      all_goals simp [hx]
    · exact absurd (hstart _ hlimit) (by decide)
  · rw [hdue] at hfreed
    cases hfreed

theorem Fits.prompt (h : Fits own ds) {before after : List Delivery}
    (hds : ds = before ++ after) (hacc : .accepted ∈ before) (hends : ∃ d ∈ before, d.ends own) :
  holdAfter .submitting before = .releasing ∨ holdAfter .submitting before = .released
  := by
  obtain ⟨first, behind, hat⟩ := exists_acceptedAt hacc
  obtain ⟨d, hd, hown⟩ := hends
  obtain ⟨e, rfl, he⟩ := ends_event hown
  have hbehind : .event e ∈ behind := by
    rw [hat.1] at hd
    rcases mem_append.mp hd with hd | hd
    · have hnot := h.early first (behind ++ after) ⟨by rw [hds, hat.1]; simp, hat.2⟩ _ hd
      rw [hown] at hnot
      cases hnot
    · exact (mem_cons.mp hd).resolve_left nofun
  rw [holdAfter_accepted hat]
  rcases exists_first Delivery.stops behind with hall | ⟨start, d, rest, rfl, hstops, hstart⟩
  · have hstops : (Delivery.event e).stops = false := hall _ hbehind
    rw [Delivery.stops, he] at hstops
    cases hstops
  rw [holdAfter_append, holdAfter_listening hstart]
  cases d with
  | accepted | macrotask => cases hstops
  | limit => exact inr (holdAfter_released rest)
  | event f =>
  change holdAfter (hold .listening (.event f)) rest = _ ∨
    holdAfter (hold .listening (.event f)) rest = _
  rw [hold_of_endsTurn hstops]
  rcases holdAfter_releasing rest with ⟨-, hfreed⟩ | ⟨-, hdue⟩
  · exact inr hfreed
  · exact inl hdue

/-- Once the lock was let go, the next macrotask releases it. -/
theorem released_of_stops
    {start rest : List Delivery} (h : ds = start ++ d :: rest)
    (hd : d.stops) (hmacrotask : .macrotask ∈ rest) :
  holdAfter .listening ds = .released
  := by
  have hdone : ∀ hold, hold = .releasing ∨ hold = .released → holdAfter hold rest = .released := by
    rintro _ (rfl | rfl)
    · rcases holdAfter_releasing rest with ⟨-, hfreed⟩ | ⟨hnone, -⟩
      · exact hfreed
      · exact absurd hmacrotask hnone
    · exact holdAfter_released rest
  rw [h, holdAfter_append]
  apply hdone
  have hkept : ∀ ds, holdAfter .listening ds = .listening ∨ holdAfter .listening ds = .releasing ∨
      holdAfter .listening ds = .released := by
    intro ds
    by_cases hds : holdAfter .listening ds = .listening
    · exact inl hds
    right
    obtain ⟨start, d, rest, rfl, hd, hstart⟩ := stops_cases hds
    rw [holdAfter_append, holdAfter_listening hstart]
    cases d with
    | accepted | macrotask => cases hd
    | limit => exact inr (holdAfter_released rest)
    | event e =>
    change holdAfter (hold .listening (.event e)) rest = _ ∨
      holdAfter (hold .listening (.event e)) rest = _
    rw [hold_of_endsTurn hd]
    rcases holdAfter_releasing rest with ⟨-, hfreed⟩ | ⟨-, hdue⟩
    · exact inr hfreed
    · exact inl hdue
  rcases hkept start with hstart | hstart | hstart
  · rw [hstart]
    cases d with
    | accepted | macrotask => cases hd
    | limit => exact inr rfl
    | event e => exact inl (hold_of_endsTurn hd)
  · rw [hstart]
    cases d with
    | macrotask => exact inr rfl
    | accepted | limit | event => exact inl rfl
  · rw [hstart]
    exact inr (holdAfter_released [d])

/-- After the lock was let go the limit is not reached any more. -/
theorem not_limitReached
    {first start rest : List Delivery} (hfirst : .accepted ∉ first)
    (hd : d.endsOther own) (hlimit : .limit ∉ start) :
  ¬ LimitReached (first ++ .accepted :: (start ++ d :: rest))
  := by
  rintro ⟨before, after, hsplit, hlist⟩
  have hacc : .accepted ∈ before := by
    by_contra hnone
    rw [holdAfter_submitting hnone] at hlist
    cases hlist
  obtain ⟨first', behind, hat⟩ := exists_acceptedAt hacc
  rw [holdAfter_accepted hat] at hlist
  -- What comes before the acceptance is the same in both.
  have hsame : start ++ d :: rest = behind ++ .limit :: after := by
    have h : first ++ .accepted :: (start ++ d :: rest) =
        first' ++ .accepted :: (behind ++ .limit :: after) := by
      rw [hsplit, hat.1, append_assoc, cons_append]
    have hfirsts : first = first' := by
      rcases append_eq_append_iff.mp h with ⟨more, hmore, htail⟩ | ⟨more, hmore, htail⟩
      · cases more with
        | nil => rw [hmore, append_nil]
        | cons x more =>
          obtain ⟨rfl, -⟩ := List.cons.inj htail
          exact absurd (hmore ▸ by simp) hat.2
      cases more with
      | nil => rw [hmore, append_nil]
      | cons x more =>
        obtain ⟨rfl, -⟩ := List.cons.inj htail
        exact absurd (hmore ▸ by simp) hfirst
    rw [hfirsts] at h
    exact (List.cons.inj (append_cancel_left h)).2
  obtain ⟨e, rfl, he⟩ := endsOther_event hd
  rcases append_eq_append_iff.mp hsame with ⟨more, hmore, htail⟩ | ⟨more, hmore, htail⟩
  · cases more with
    | nil => cases htail
    | cons x more =>
      -- The end of the other turn comes before the limit, when the listener was attached.
      obtain ⟨rfl, -⟩ := List.cons.inj htail
      have hstops : ∀ ds : List Delivery, (∃ x ∈ ds, x.stops) →
          holdAfter .listening ds ≠ .listening := by
        rintro ds ⟨x, hx, hstops⟩ hlist
        obtain ⟨a, b, rfl⟩ := append_of_mem hx
        have hfreed : holdAfter .listening (a ++ x :: (b ++ [.macrotask])) = .released :=
          released_of_stops rfl hstops (by simp)
        have hsplit : a ++ x :: (b ++ [Delivery.macrotask]) = (a ++ x :: b) ++ [.macrotask] := by
          simp
        rw [hsplit, holdAfter_append, hlist] at hfreed
        cases hfreed
      exact hstops behind ⟨.event e, by rw [hmore]; simp, he⟩ hlist
  cases more with
  | nil => cases htail
  | cons x more =>
    obtain ⟨rfl, -⟩ := List.cons.inj htail
    exact hlimit (hmore ▸ by simp)

/-- The lock lives as long as the turn just if the turn ends after it is accepted and no other turn
lets the lock go before. -/
theorem keepsTurn_iff (own : GatewayEnvelope → Bool) (ds : List Delivery) :
  KeepsTurn own ds ↔ Fits own ds
  := by
  constructor
  · intro h
    have hearly : ∀ before after, AcceptedAt ds before after → ∀ d ∈ before,
        d.ends own = false := by
      intro before after hat d hd
      by_contra hends
      rw [Bool.not_eq_false] at hends
      have hprompt := h.prompt (before ++ [.accepted]) after (by rw [hat.1]; simp) (by simp)
        ⟨d, mem_append_left _ hd, hends⟩
      rw [holdAfter_accepted ⟨rfl, hat.2⟩] at hprompt
      rcases hprompt with hprompt | hprompt
      all_goals cases hprompt
    refine ⟨hearly, ?_⟩
    intro before after hat start d middle rest hafter hother
    by_contra hnone
    rw [not_or] at hnone
    obtain ⟨hno, hlimit⟩ := hnone
    obtain ⟨e, rfl, he⟩ := endsOther_event hother
    have hsplit : ds = (before ++ .accepted :: (start ++ .event e :: (middle ++ [.macrotask]))) ++
        rest := by
      rw [hat.1, hafter]
      simp
    have hfreed : holdAfter .submitting
        (before ++ .accepted :: (start ++ .event e :: (middle ++ [.macrotask]))) = .released := by
      rw [holdAfter_accepted ⟨rfl, hat.2⟩]
      exact released_of_stops rfl he (by simp)
    rcases h.kept _ rest hsplit hfreed with ⟨x, hx, hends⟩ | hreached
    · simp only [mem_append, mem_cons, not_mem_nil, or_false] at hx
      rcases hx with hx | rfl | hx | rfl | hx | rfl
      · rw [hearly before after hat x hx] at hends
        cases hends
      · cases hends
      · exact hno ⟨x, mem_append_left _ hx, hends⟩
      · rw [Delivery.ends] at hends
        rw [Delivery.endsOther, (Bool.and_eq_true_iff.mp hends).2] at hother
        simp at hother
      · exact hno ⟨x, mem_append_right _ hx, hends⟩
      · cases hends
    · exact not_limitReached hat.2 hother hlimit hreached
  · intro h
    exact ⟨fun before after => h.kept, fun before after => h.prompt⟩

end Turn

/-- The end of a turn. -/
def turnCompleted : GatewayEnvelope :=
  ⟨"core", .obj [("type", .str "turn.completed")]⟩

/-- A turn that ends before it is accepted does not give the lock back. -/
theorem not_keepsTurn :
  ¬ ∀ own ds, KeepsTurn own ds
  := by
  intro h
  have hprompt := (h (fun _ => true) [.event turnCompleted, .accepted]).prompt
    [.event turnCompleted, .accepted] [] rfl (by simp) ⟨_, mem_cons_self, by decide⟩
  rcases hprompt with hprompt | hprompt
  all_goals cases hprompt

end Gateway
