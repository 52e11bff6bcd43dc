import RefPool.Proofs.Diagram

/-! A closed breaker counts the failures since the last success, unless a listener disturbs it. -/

namespace RefPool

/-- Whether a call fails: its wrapped function settles with an error. -/
def BreakerAction.fails {ν ε : Type} : BreakerAction ν ε → Bool
  | .settled _ (.error _) _ => true
  | .settled _ (.ok _) _ | .exec _ | .clock _ => false

/-- A breaker system with the number of calls that failed since the last one that succeeded. -/
structure Tallied where
  system : BreakerSystem
  failed : Nat

namespace Tallied

variable {ν ε : Type} {options : InMemoryCircuitBreakerOptions} {s next : Tallied}

/-- A new breaker, of which no call has failed. -/
def init (now : Int) : Tallied := ⟨.init now, 0⟩

/-- The failures in a row after an action: a success starts over. -/
def tally (failed : Nat) : BreakerAction ν ε → Nat
  | .settled _ (.ok _) _ => 0
  | .settled _ (.error _) _ => failed + 1
  | .exec _ | .clock _ => failed

/-- The effect of an action, where it can happen. -/
def step (options : InMemoryCircuitBreakerOptions) (s : Tallied) (action : BreakerAction ν ε) :
    Option Tallied :=
  (s.system.step options action).map fun system => ⟨system, tally s.failed action⟩

/-- A closed breaker has on record what failed since the last success, below the threshold. -/
structure Counted (options : InMemoryCircuitBreakerOptions) (s : Tallied) : Prop where
  failures : s.system.breaker.state = .closed → s.system.breaker.failures = s.failed
  below : s.system.breaker.state = .closed →
    (s.system.breaker.failures : Int) < options.failureThreshold

/-- Whether the record of a breaker is right can be checked. -/
instance (s : Tallied) : Decidable (s.Counted options) :=
  decidable_of_iff
    ((s.system.breaker.state = .closed → s.system.breaker.failures = s.failed) ∧
      (s.system.breaker.state = .closed →
        (s.system.breaker.failures : Int) < options.failureThreshold))
    ⟨fun ⟨failures, below⟩ => ⟨failures, below⟩, fun ⟨failures, below⟩ => ⟨failures, below⟩⟩

/-- The breaker goes from `closed` to `open` at exactly the failure that reaches the threshold. -/
def OpensAtThreshold (options : InMemoryCircuitBreakerOptions) (s : Tallied)
    (action : BreakerAction ν ε) : Prop :=
  ∀ next, s.step options action = some next →
    ([.closed, .open] <:+: s.system.breaker.state :: s.system.news next.system ↔
      s.system.breaker.state = .closed ∧ action.fails = true ∧
        ((s.failed + 1 : Nat) : Int) = options.failureThreshold)

/-- No listener throws on being told that a success has closed the breaker. -/
def Undisturbed (s : Tallied) : BreakerAction ν ε → Prop
  | .settled _ (.ok _) raises => s.system.breaker.state ≠ .closed → raises .closed = false
  | .settled _ (.error _) _ | .exec _ | .clock _ => True

/-- Whether a listener disturbs a step can be checked. -/
instance (s : Tallied) (action : BreakerAction ν ε) : Decidable (s.Undisturbed action) :=
  match action with
  | .settled _ (.ok _) raises =>
    inferInstanceAs (Decidable (s.system.breaker.state ≠ .closed → raises .closed = false))
  | .settled _ (.error _) _ | .exec _ | .clock _ => isTrue trivial

/-- A step is one of the system, and the tally goes with it. -/
theorem step_eq_some {action : BreakerAction ν ε} (stepped : s.step options action = some next) :
    ∃ system, s.system.step options action = some system ∧
      next = ⟨system, tally s.failed action⟩ := by
  -- The tally is computed from the action alone.
  obtain ⟨system, moved, same⟩ := Option.map_eq_some_iff.mp stepped
  exact ⟨system, moved, same.symm⟩

end Tallied

namespace BreakerSystem

variable {ν ε : Type} {options : InMemoryCircuitBreakerOptions} {s next : BreakerSystem}

/-- One announcement is the change from `closed` to `open` where it names these two states. -/
theorem opening_iff {before reached : BreakerState} :
    [.closed, .open] <:+: [before, reached] ↔ before = .closed ∧ reached = .open := by
  -- Three states times three states.
  cases before <;> cases reached <;> decide

/-- An undisturbed breaker opens from `closed` at the failure that reaches the threshold. -/
theorem Effect.opens {action : BreakerAction ν ε} {failed : Nat}
    (counted : (⟨s, failed⟩ : Tallied).Counted options)
    (quiet : (⟨s, failed⟩ : Tallied).Undisturbed action)
    (effect : Effect options s action next) :
    [.closed, .open] <:+: s.breaker.state :: s.news next ↔
      s.breaker.state = .closed ∧ action.fails = true ∧
        ((failed + 1 : Nat) : Int) = options.failureThreshold := by
  -- At most one state is announced, so that the change is the whole of it or does not happen.
  have silent (announced : next.breaker.announced = s.breaker.announced) :
      ¬[.closed, .open] <:+: s.breaker.state :: s.news next := by
    rw [show s.news next = [] by simp [news, announced]]
    cases s.breaker.state <;> decide
  have single {reached : BreakerState}
      (announced : next.breaker.announced = s.breaker.announced ++ [reached]) :
      [.closed, .open] <:+: s.breaker.state :: s.news next ↔
        s.breaker.state = .closed ∧ reached = .open := by
    rw [show s.news next = [reached] by simp [news, announced], opening_iff]
  have failures (closed : s.breaker.state = .closed) : s.breaker.failures = failed :=
    counted.failures closed
  cases effect with
  | passed | cooling | full | probed | succeeded | clock =>
    exact iff_of_false (silent rfl) (by simp [BreakerAction.fails])
  | reopened | reprobed | recovered =>
    exact (single rfl).trans (by simp [BreakerAction.fails])
  -- A listener threw, which the guard rules out.
  | spoiled c call value raises awaited tripped raised
  | relapsed c call value raises awaited tripped raised =>
    have heard := quiet tripped
    simp [raised] at heard
  | counted c call error raises awaited closed short =>
    refine iff_of_false (silent rfl) fun opens => ?_
    have reached := opens.2.2
    rw [failures closed] at short
    omega
  -- The record was below the threshold, and reaches it with this failure.
  | tripped c call error raises awaited closed reached =>
    have below : (s.breaker.failures : Int) < options.failureThreshold := counted.below closed
    rw [failures closed] at reached below
    exact (single rfl).trans (iff_of_true ⟨closed, rfl⟩ ⟨closed, rfl, by omega⟩)
  | failed c call error raises awaited halfOpen =>
    exact (single rfl).trans (by simp [halfOpen])
  | late c call error raises awaited opened =>
    exact iff_of_false (silent rfl) (by simp [opened])

/-- A breaker that is not disturbed keeps its record right. -/
theorem Effect.keepsCounted {action : BreakerAction ν ε} {failed : Nat}
    (threshold : 1 ≤ options.failureThreshold)
    (counted : (⟨s, failed⟩ : Tallied).Counted options)
    (quiet : (⟨s, failed⟩ : Tallied).Undisturbed action)
    (effect : Effect options s action next) :
    (⟨next, Tallied.tally failed action⟩ : Tallied).Counted options := by
  -- The breaker comes to be closed by a success only, which clears both counts.
  have elsewhere (left : next.breaker.state ≠ .closed) :
      (⟨next, Tallied.tally failed action⟩ : Tallied).Counted options :=
    ⟨fun closed => absurd closed left, fun closed => absurd closed left⟩
  have cleared (failures : next.breaker.failures = 0) (none : Tallied.tally failed action = 0) :
      (⟨next, Tallied.tally failed action⟩ : Tallied).Counted options :=
    ⟨fun _ => failures.trans none.symm, fun _ => by simp only [failures]; omega⟩
  cases effect with
  | passed | cooling | full | probed | clock => exact ⟨counted.failures, counted.below⟩
  | succeeded | recovered => exact cleared rfl rfl
  | spoiled c call value raises awaited tripped raised
  | relapsed c call value raises awaited tripped raised =>
    have heard := quiet tripped
    simp [raised] at heard
  -- One more failure goes on both counts.
  | counted c call error raises awaited closed short =>
    exact ⟨fun _ => congrArg (· + 1) (counted.failures closed), fun _ => short⟩
  | reopened | reprobed | tripped | failed => exact elsewhere nofun
  | late c call error raises awaited opened =>
    exact elsewhere (by simp [counting, settling, opened])

/-- A listener that disturbs a success leaves a wrong record, or opens the breaker too early. -/
theorem Effect.undisturbed {action : BreakerAction ν ε} {failed : Nat}
    (opens : [.closed, .open] <:+: s.breaker.state :: s.news next ↔
      s.breaker.state = .closed ∧ action.fails = true ∧
        ((failed + 1 : Nat) : Int) = options.failureThreshold)
    (counted : (⟨next, Tallied.tally failed action⟩ : Tallied).Counted options)
    (effect : Effect options s action next) : (⟨s, failed⟩ : Tallied).Undisturbed action := by
  cases effect with
  | succeeded c call value raises awaited closed => exact fun tripped => absurd closed tripped
  | recovered c call value raises awaited tripped heard => exact fun _ => heard
  -- The success left a failure on record.
  | spoiled => cases counted.failures rfl
  -- The success announced the change from `closed` to `open`.
  | relapsed c call value raises awaited tripped =>
    have told : s.news (((s.settling c).closing 1).opening 1) = [.closed, .open] := by
      simp [news, opening, closing, settling]
    have changed := opens.mp (told ▸ List.infix_cons (List.infix_refl _))
    exact absurd changed.1 tripped
  | passed | cooling | reopened | reprobed | full | probed | counted | tripped | failed | late
  | clock => trivial

end BreakerSystem

namespace Tallied

variable {ν ε : Type} {options : InMemoryCircuitBreakerOptions} {s next : Tallied}

/-- A new breaker has nothing on record. -/
theorem counted_init (threshold : 1 ≤ options.failureThreshold) (now : Int) :
    Counted options (init now) :=
  -- A closed breaker has counted nothing, and the threshold is at least one.
  ⟨fun _ => rfl, fun _ => by
    show ((0 : Nat) : Int) < options.failureThreshold
    omega⟩

/--
A closed breaker counts the failures since the last success and opens at the threshold exactly when
no listener throws on being told that a success has closed it.
-/
theorem tripsExactly_iff (options : InMemoryCircuitBreakerOptions)
    (threshold : 1 ≤ options.failureThreshold) (now : Int) (actions : List (BreakerAction ν ε)) :
    (Runs.Throughout (step options) (Counted options) (init now) actions ∧
      Runs.Guarded (step options) (OpensAtThreshold options) (init now) actions) ↔
      Runs.Guarded (step options) Undisturbed (init now) actions := by
  constructor
  -- A disturbed success shows in the record, or in the change that it causes.
  · rintro ⟨counted, opens⟩
    refine counted.guarded_of_guarded (fun (_ : Tallied) _ _ (_ : True) _ => trivial)
      (fun s action next _ _ opens stepped counted => ?_) trivial opens
    obtain ⟨system, moved, rfl⟩ := step_eq_some stepped
    exact (BreakerSystem.effect_of_step moved).undisturbed (opens _ stepped) counted
  · intro quiet
    have kept (s : Tallied) (action : BreakerAction ν ε) (next : Tallied)
        (counted : Counted options s) (quiet : s.Undisturbed action)
        (stepped : s.step options action = some next) : Counted options next := by
      obtain ⟨system, moved, rfl⟩ := step_eq_some stepped
      exact (BreakerSystem.effect_of_step moved).keepsCounted threshold counted quiet
    have start := counted_init threshold now
    -- While the record is right, the guard decides when the breaker opens.
    refine ⟨quiet.throughout (Counted options) kept start, ?_⟩
    refine quiet.weaken (Counted options) (fun s action next counted quiet stepped => ?_) kept start
    intro other stepped'
    obtain ⟨system, moved, rfl⟩ := step_eq_some stepped'
    exact (BreakerSystem.effect_of_step moved).opens counted quiet

/-- A breaker that trips at its second failure in a row, and is closed by a late success. -/
theorem tripsExactly_iff_late :
    let options : InMemoryCircuitBreakerOptions := { failureThreshold := 2 }
    let actions : List (BreakerAction Unit Unit) :=
      [.exec fun _ => false, .exec fun _ => false, .exec fun _ => false,
        .settled 0 (.error ()) fun _ => true, .settled 1 (.error ()) fun _ => true,
        .settled 2 (.ok ()) fun _ => false]
    Runs.Throughout (step options) (Counted options) (init 0) actions ∧
      Runs.Guarded (step options) (OpensAtThreshold options) (init 0) actions :=
  -- No listener throws at `closed`, though all throw at `open`.
  (tripsExactly_iff _ (by decide) 0 _).mpr (by decide)

/-- A listener throws as a late success closes the breaker: a failure is left on record. -/
theorem tripsExactly_disturbed :
    let options : InMemoryCircuitBreakerOptions := { failureThreshold := 2 }
    let actions : List (BreakerAction Unit Unit) :=
      [.exec fun _ => false, .exec fun _ => false, .exec fun _ => false,
        .settled 0 (.error ()) fun _ => false, .settled 1 (.error ()) fun _ => false,
        .settled 2 (.ok ()) fun state => state = .closed]
    ¬(Runs.Throughout (step options) (Counted options) (init 0) actions ∧
      Runs.Guarded (step options) (OpensAtThreshold options) (init 0) actions) :=
  -- The failure counted for the listener is no failure of a call.
  fun ⟨counted, _⟩ => absurd counted (by decide)

end Tallied

end RefPool
