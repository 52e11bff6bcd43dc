import RefPool.Proofs.BreakerEffect

/-! A call of `exec` reports what its function came to, unless a listener throws at its end. -/

namespace RefPool.InMemoryCircuitBreaker

variable {ν ε : Type} {options : InMemoryCircuitBreakerOptions} {breaker : InMemoryCircuitBreaker}
  {now : Int} {raises : BreakerState → Bool}

/-- Whether telling the listeners of a state ends in an exception: the first to throw ends it. -/
def notify (listeners : List (BreakerState → Bool)) (next : BreakerState) : Bool :=
  listeners.any fun listener => listener next

/-- The other state that the settlement of a call leads to, if it leads to one. -/
def enters (options : InMemoryCircuitBreakerOptions) (breaker : InMemoryCircuitBreaker) :
    Except ε ν → Option BreakerState
  | .ok _ => if breaker.state = .closed then none else some .closed
  | .error _ =>
    if breaker.state = .halfOpen then some .open
    -- A failure of an open breaker leaves it open, whatever it counts up to.
    else if breaker.state = .closed ∧ options.failureThreshold ≤ (breaker.failures + 1 : Nat) then
      some .open
    else none

/-- The breaker with one success or one failure recorded, as the function came to. -/
def recording (options : InMemoryCircuitBreakerOptions) (breaker : InMemoryCircuitBreaker)
    (now : Int) (raises : BreakerState → Bool) : Except ε ν → InMemoryCircuitBreaker
  | .ok _ => (breaker.onSuccess raises).1
  | .error _ => (breaker.onFailure options now raises).1

/-- A call settles as its function did, which is recorded once and told to the caller. -/
structure Reports (options : InMemoryCircuitBreakerOptions) (breaker : InMemoryCircuitBreaker)
    (now : Int) (raises : BreakerState → Bool) (result : Except ε ν) : Prop where
  /-- It fulfils with the same value, or rejects with the same error. -/
  outcome : (breaker.settle options now raises result).2 = result.mapError .fn
  recorded : (breaker.settle options now raises result).1 =
    breaker.recording options now raises result
  /-- A pool that creates behind the breaker is told of the resource that was made. -/
  told : (breaker.settle options now raises result).2.toOption = result.toOption

/-- A success throws what the listeners throw at the state that it leads to. -/
theorem onSuccess_threw (value : ν) : (breaker.onSuccess raises).2 =
    (breaker.enters options (.ok value : Except ε ν)).any raises := by
  -- A success enters a state only where the breaker is not closed.
  by_cases closed : breaker.state = .closed
  · simp [onSuccess, enters, closed]
  · rw [onSuccess_recovers closed]
    simp [enters, closed]

/-- A failure throws what the listeners throw at the state that it leads to. -/
theorem onFailure_threw (error : ε) : (breaker.onFailure options now raises).2 =
    (breaker.enters options (.error error : Except ε ν)).any raises := by
  -- Only a failure at the threshold, or of a half-open breaker, is a transition.
  cases state : breaker.state with
  | closed =>
    simp only [onFailure, enters, state, reduceCtorEq, if_false, true_and]
    split <;> simp [transition]
  | «open» =>
    simp only [onFailure, enters, state, reduceCtorEq, if_false, false_and, Option.any_none]
    split <;> simp [transition]
  | halfOpen => simp [onFailure, enters, transition, state]

/-- A call reports its function exactly when no listener throws at the state that it leads to. -/
theorem reports_iff_quiet (result : Except ε ν) :
    Reports options breaker now raises result ↔
      (breaker.enters options result).any raises = false := by
  cases result with
  | ok value =>
    rw [← onSuccess_threw]
    cases threw : (breaker.onSuccess raises).2 with
    | false =>
      have settled : breaker.settle options now raises (.ok value : Except ε ν) =
          ((breaker.onSuccess raises).1, .ok value) := by simp [settle, threw]
      exact iff_of_true ⟨by rw [settled]; rfl, by rw [settled]; rfl, by rw [settled]; rfl⟩ rfl
    | true =>
      -- The exception ends up in the `catch`, and the caller sees it.
      have settled : (breaker.settle options now raises (.ok value : Except ε ν)).2 =
          .error .listener := by simp [settle, threw]
      refine iff_of_false (fun reports => ?_) Bool.true_eq_false.mp
      have outcome := reports.outcome
      rw [settled] at outcome
      cases outcome
  | error error =>
    rw [← onFailure_threw]
    have settled : breaker.settle options now raises (.error error : Except ε ν) =
        ((breaker.onFailure options now raises).1,
          .error (if (breaker.onFailure options now raises).2 then .listener else .fn error)) := rfl
    cases threw : (breaker.onFailure options now raises).2 with
    | false => exact iff_of_true ⟨by simp [settled, threw, Except.mapError], rfl, rfl⟩ rfl
    | true =>
      refine iff_of_false (fun reports => ?_) Bool.true_eq_false.mp
      have outcome := reports.outcome
      rw [settled, threw] at outcome
      cases outcome

/--
A call settles as its function did, and is recorded as that alone, exactly when no listener throws
on being told of the state that its settlement leads to.
-/
theorem reports_iff (options : InMemoryCircuitBreakerOptions) (breaker : InMemoryCircuitBreaker)
    (now : Int) (listeners : List (BreakerState → Bool)) (result : Except ε ν) :
    Reports options breaker now (notify listeners) result ↔
      ∀ next, breaker.enters options result = some next →
        ∀ listener ∈ listeners, listener next = false := by
  -- Together the listeners throw exactly if one of them does.
  rw [reports_iff_quiet, Option.any_eq_false]
  simp only [notify, List.any_eq_false, Bool.not_eq_true]

/-- The probe of a half-open breaker fulfils, and `exec` rejects with what a listener throws. -/
theorem reports_disturbed :
    let breaker : InMemoryCircuitBreaker :=
      { state := .halfOpen, failures := 5, openedAt := 0, halfOpenAttempts := 1
        announced := [.open, .halfOpen] }
    ¬Reports {} breaker 30000 (notify [fun state => state = .closed])
      (.ok 70 : Except Unit Nat) := by
  -- The success leads to `closed`, at which the listener throws.
  intro breaker reports
  exact absurd reports.told (by decide)

end RefPool.InMemoryCircuitBreaker
