import VolundCode.Lib.Run
import VolundCode.Lib.SlidingWindow
import Mathlib.Tactic

/-!
# The guard against too many prompts of an MCP server

The guard counts the requests that a server makes in a minute, and lets one pass as long as they are
within the limit of the server. It reads the limits from the configuration when it is first asked and
every half minute after that. While it waits for them it knows none, not even those it had, and goes
by the default.

In a run in which it never goes by the default beyond the limit of a server, at most as many
requests as the limit pass in a minute (`limited_of_known`).
-/

namespace AppRuntime.Fatigue

open Run SlidingWindow List Function

structure McpServerConfig where
  name : String
  maxPromptsPerMinute : ℕ
  deriving DecidableEq

/-- `WINDOW_MS`. -/
def windowMs : ℤ := 60000

/-- `CACHE_TTL_MS`. -/
def cacheTtlMs : ℤ := 30000

/-- The limit of a server that none is known of. -/
def defaultLimit : ℕ := 10

/-- The limits of a configuration. A server may be in several layers, and the lowest counts. -/
def limitsOf (configs : List McpServerConfig) : String → Option ℕ :=
  configs.foldl (fun merged config =>
    Function.update merged config.name <| some <|
      match merged config.name with
      | none => config.maxPromptsPerMinute
      | some existing => min existing config.maxPromptsPerMinute)
    fun _ => none

structure McpFatigueGuard where
  windows : String → List ℤ
  cachedLimits : Option (String → Option ℕ)
  cachedAt : ℤ
  /-- How many loads of the configuration are on their way. -/
  loads : ℕ

/-- The limits are loaded again. -/
def McpFatigueGuard.reload (g : McpFatigueGuard) (instant : ℤ) : McpFatigueGuard :=
  { g with
    cachedAt := instant
    cachedLimits := some fun _ => none
    loads := g.loads + 1 }

/-- `limitFor`. -/
def McpFatigueGuard.limitFor (g : McpFatigueGuard) (serverName : String) (instant : ℤ) :
    ℕ × McpFatigueGuard :=
  match g.cachedLimits with
  | none => (defaultLimit, g.reload instant)
  | some limits =>
    if cacheTtlMs < instant - g.cachedAt then (defaultLimit, g.reload instant)
    else ((limits serverName).getD defaultLimit, g)

/-- `check`, and whether the request passes. The clock is read for the limit and for the request. -/
def McpFatigueGuard.check (g : McpFatigueGuard) (serverName : String) (instant now : ℤ) :
    Bool × McpFatigueGuard :=
  let limited := g.limitFor serverName instant
  let window := recent windowMs now (limited.2.windows serverName) ++ [now]
  (window.length ≤ limited.1,
    { limited.2 with windows := Function.update limited.2.windows serverName window })

/-! ### Runs -/

/-- The guard, the clock, and when the requests of each server have passed since the limits were
there for the first time. -/
structure World where
  guard : McpFatigueGuard
  clock : ℤ
  ready : Bool
  passed : String → List ℤ

def World.new (clock : ℤ) : World where
  guard := ⟨fun _ => [], none, 0, 0⟩
  clock := clock
  ready := false
  passed := fun _ => []

inductive Action where
  | check (serverName : String) (instant now : ℤ)
  | loaded (configs : List McpServerConfig)
  | loadFails

def step (w : World) : Action → Option World
  | .check serverName instant now =>
    if w.clock ≤ instant ∧ instant ≤ now then
      let checked := w.guard.check serverName instant now
      some
        { w with
          guard := checked.2
          clock := now
          passed :=
            if checked.1 && w.ready then
              Function.update w.passed serverName (w.passed serverName ++ [now])
            else w.passed }
    else none
  | .loaded configs =>
    if 0 < w.guard.loads then
      some
        { w with
          guard :=
            { w.guard with
              cachedLimits := some (limitsOf configs)
              loads := w.guard.loads - 1 }
          ready := true }
    else none
  | .loadFails =>
    if 0 < w.guard.loads then some { w with guard := { w.guard with loads := w.guard.loads - 1 } }
    else none

/-- A load yields the configuration. -/
def Action.Yields (configs : List McpServerConfig) : Action → Prop
  | .check .. => True
  | .loaded configs' => configs' = configs
  | .loadFails => False

/-- No minute holds more requests of a server that have passed than its limit. -/
def Limited (configs : List McpServerConfig) : Prop :=
  ∀ name limit, limitsOf configs name = some limit → ∀ clock actions w,
    Guarded step (fun _ => Action.Yields configs) (.new clock) actions →
    run step (.new clock) actions = some w →
    ∀ start, (within windowMs start (w.passed name)).length ≤ limit

/-- A minute with two requests of a server whose limit is one: while the limits are loaded again, the
guard goes by the default. -/
theorem not_limited :
  ¬ Limited [⟨"files", 1⟩]
  := by
  intro h
  have htwo := h "files" 1 rfl 0
    [.check "files" 0 0, .loaded [⟨"files", 1⟩], .check "files" 30001 30001,
      .check "files" 30002 30002] _
    ⟨True.intro, rfl, True.intro, True.intro, True.intro⟩ rfl 30001
  apply absurd htwo (by decide)

/-- A check of the server is made when its limit is known and not due to be loaded again, or below
the limit, or the default is not above the limit. -/
def Known (name : String) (limit : ℕ) (w : World) : Action → Prop
  | .check serverName instant now =>
    serverName = name →
      defaultLimit ≤ limit ∨ (recent windowMs now (w.guard.windows name)).length < limit ∨
        ∃ limits, w.guard.cachedLimits = some limits ∧ (limits name).isSome ∧
          instant - w.guard.cachedAt ≤ cacheTtlMs
  | _ => True

variable {configs : List McpServerConfig} {name : String} {limit : ℕ} {w w' : World}

/-- What the guard knows of the limit of a server is right, it has the recent requests that have
passed in its window, and no minute holds more of them than the limit. -/
structure Sound (name : String) (limit : ℕ) (w : World) : Prop where
  cached : ∀ limits ∈ w.guard.cachedLimits, ∀ known ∈ limits name, known = limit
  windows : ∀ later, w.clock ≤ later →
    recent windowMs later (w.passed name) <+ recent windowMs later (w.guard.windows name)
  bounded : ∀ start, (within windowMs start (w.passed name)).length ≤ limit

theorem sound_new (name : String) (limit : ℕ) (clock : ℤ) :
  Sound name limit (.new clock)
  := by
  constructor
  · intro limits hlim
    cases hlim
  · intro later _
    apply nil_sublist
  · intro start
    apply Nat.zero_le

/-- The limit for a server leaves the windows, and what is known of the limits stays right. -/
theorem limitFor_snd (g : McpFatigueGuard) (serverName : String) (instant : ℤ) :
  (g.limitFor serverName instant).2.windows = g.windows ∧
    ((g.limitFor serverName instant).2.cachedLimits = g.cachedLimits ∨
      (g.limitFor serverName instant).2.cachedLimits = some fun _ => none)
  := by
  rw [McpFatigueGuard.limitFor]
  cases hlim : g.cachedLimits with
  | none => exact ⟨rfl, .inr rfl⟩
  | some limits =>
  dsimp only
  split_ifs
  · exact ⟨rfl, .inr rfl⟩
  · exact ⟨rfl, .inl hlim⟩

/-- The requests of the last minute are within the limit when one passes. -/
theorem length_le_of_known {instant now : ℤ} (h : Sound name limit w)
    (hknown : Known name limit w (.check name instant now))
    (hpasses : (recent windowMs now (w.guard.windows name)).length + 1 ≤
      (w.guard.limitFor name instant).1) :
  (recent windowMs now (w.guard.windows name)).length + 1 ≤ limit
  := by
  rcases hknown rfl with hdefault | hbelow | ⟨limits, hlim, hsome, hfresh⟩
  · apply hpasses.trans
    rw [McpFatigueGuard.limitFor]
    cases hcached : w.guard.cachedLimits with
    | none => exact hdefault
    | some limits =>
    dsimp only
    split_ifs
    · exact hdefault
    · cases hname : limits name with
      | none => exact hdefault
      | some known => exact (h.cached limits hcached known hname).le
  · exact hbelow
  obtain ⟨known, hname⟩ := Option.isSome_iff_exists.mp hsome
  rw [McpFatigueGuard.limitFor, hlim] at hpasses
  dsimp only at hpasses
  rw [if_neg hfresh.not_gt, hname, h.cached limits hlim known hname] at hpasses
  exact hpasses

/-- A request is checked. -/
theorem Sound.check {serverName : String} {instant now : ℤ} (h : Sound name limit w)
    (hknown : Known name limit w (.check serverName instant now))
    (hstep : step w (.check serverName instant now) = some w') :
  Sound name limit w'
  := by
  rw [step] at hstep
  split at hstep
  next hclock =>
    cases hstep
    have hnow := hclock.1.trans hclock.2
    obtain ⟨hwindows, hcached⟩ := limitFor_snd w.guard serverName instant
    simp only [McpFatigueGuard.check, hwindows]
    constructor
    · intro limits hlim known hknown'
      dsimp only at hlim
      rcases hcached with hsame | hnone
      · rw [hsame] at hlim
        exact h.cached limits hlim known hknown'
      · rw [hnone] at hlim
        cases hlim
        cases hknown'
    · intro later hlater
      dsimp only at hlater ⊢
      have hwin := h.windows later (hnow.trans hlater)
      by_cases hname : serverName = name
      · subst hname
        rw [update_self]
        have hkeeps : recent windowMs later (recent windowMs now (w.guard.windows serverName) ++ [now]) =
            recent windowMs later (w.guard.windows serverName) ++ recent windowMs later [now] := by
          rw [← recent_recent hlater (w.guard.windows serverName)]
          apply filter_append
        rw [hkeeps]
        split_ifs
        · rw [update_self, show recent windowMs later (w.passed serverName ++ [now]) =
            recent windowMs later (w.passed serverName) ++ recent windowMs later [now] from
              filter_append _ _]
          apply hwin.append_right
        · apply hwin.trans (sublist_append_left _ _)
      rw [update_of_ne (Ne.symm hname)]
      split_ifs
      · rw [update_of_ne (Ne.symm hname)]
        exact hwin
      · exact hwin
    intro start
    dsimp only
    split_ifs with hpasses
    · by_cases hname : serverName = name
      · subst hname
        rw [update_self]
        rw [Bool.and_eq_true, decide_eq_true_eq, length_append, length_singleton] at hpasses
        apply (within_concat_length start).trans
        apply max_le (h.bounded start)
        apply le_trans _ (length_le_of_known h hknown hpasses.1)
        apply Nat.succ_le_succ (h.windows now hnow).length_le
      · rw [update_of_ne (Ne.symm hname)]
        exact h.bounded start
    · exact h.bounded start
  · cases hstep

/-- Every action keeps what is sound. -/
theorem Sound.step {a : Action} (hlimit : limitsOf configs name = some limit)
    (h : Sound name limit w) (ha : a.Yields configs ∧ Known name limit w a)
    (hstep : step w a = some w') :
  Sound name limit w'
  := by
  cases a with
  | check serverName instant now => exact h.check ha.2 hstep
  | loaded configs' =>
    obtain rfl : configs' = configs := ha.1
    rw [Fatigue.step] at hstep
    split at hstep
    · cases hstep
      constructor
      · intro limits hlim known hknown
        cases hlim
        exact Option.some.inj (hknown.symm.trans hlimit)
      · exact h.windows
      · exact h.bounded
    · cases hstep
  | loadFails => cases ha.1

/-- No minute holds more requests of a server that have passed than its limit, in a run in which the
guard does not go by the default beyond the limit. -/
theorem limited_of_known {clock : ℤ} {actions : List Action}
    (hlimit : limitsOf configs name = some limit)
    (hok : Guarded step (fun w a => a.Yields configs ∧ Known name limit w a) (.new clock) actions)
    (hrun : run step (.new clock) actions = some w) (start : ℤ) :
  (within windowMs start (w.passed name)).length ≤ limit
  := by
  have hsound : Sound name limit w :=
    hok.invariant (fun _ _ _ h ha hstep => h.step hlimit ha hstep) (sound_new name limit clock) hrun
  exact hsound.bounded start

/-- The second request of a server waits for no limits, and the third finds them. -/
theorem limited_of_known_third :
  ∃ w, run step (.new 0) [.check "files" 0 0, .check "files" 1 1, .loaded [⟨"files", 2⟩],
      .check "files" 2 2] = some w ∧
    (within windowMs 0 (w.passed "files")).length ≤ 2
  := by
  have hok : Guarded step
      (fun w a => Action.Yields [⟨"files", 2⟩] a ∧ Known "files" 2 w a) (.new 0)
      [.check "files" 0 0, .check "files" 1 1, .loaded [⟨"files", 2⟩], .check "files" 2 2] := by
    refine ⟨⟨True.intro, ?_⟩, ⟨True.intro, ?_⟩, ⟨rfl, True.intro⟩, ⟨True.intro, ?_⟩, True.intro⟩
    · exact fun _ => .inr (.inl (by decide))
    · exact fun _ => .inr (.inl (by decide))
    · exact fun _ => .inr (.inr ⟨_, rfl, rfl, by decide⟩)
  refine ⟨_, rfl, ?_⟩
  apply limited_of_known rfl hok rfl 0

end AppRuntime.Fatigue
