import RefPool.Model.Types

/-! `InMemoryCircuitBreaker`, and the calls of `exec` in flight on one. -/

namespace RefPool

/-- The options of a breaker. -/
structure InMemoryCircuitBreakerOptions where
  /-- Consecutive failures that trip the breaker open. -/
  failureThreshold : Int := 5
  /-- Time the breaker stays open before allowing a half-open probe. -/
  cooldownMs : Int := 30000
  /-- Concurrent probes permitted in the half-open state. -/
  halfOpenMaxAttempts : Int := 1

/-- A dependency-free breaker. -/
structure InMemoryCircuitBreaker where
  state : BreakerState
  failures : Nat
  openedAt : Int
  halfOpenAttempts : Nat
  /-- Every state the listeners were told of so far, in order. -/
  announced : List BreakerState

/-- What a call of `exec` rejects with. -/
inductive ExecError (ε : Type) where
  /-- `CircuitOpenError`. -/
  | circuitOpen
  /-- What the wrapped function rejected with. -/
  | fn (error : ε)
  /-- What a listener threw. -/
  | listener

/-- How the part of `exec` before the wrapped function is called ends. -/
inductive Admission where
  /-- The wrapped function is called. -/
  | admitted
  /-- `exec` throws `CircuitOpenError`. -/
  | refused
  /-- A listener threw, and `exec` rejects with that. -/
  | threw
  deriving DecidableEq, Repr

namespace InMemoryCircuitBreaker

variable {ν ε : Type}

/-- A breaker as its constructor leaves it. -/
def new : InMemoryCircuitBreaker := ⟨.closed, 0, 0, 0, []⟩

/-- Enter a state and tell the listeners, of which one may throw. -/
def transition (breaker : InMemoryCircuitBreaker) (next : BreakerState)
    (raises : BreakerState → Bool) : InMemoryCircuitBreaker × Bool :=
  -- The listeners hear of changes only.
  if next = breaker.state then (breaker, false)
  else ({ breaker with state := next, announced := breaker.announced ++ [next] }, raises next)

/-- A call fulfilled. -/
def onSuccess (breaker : InMemoryCircuitBreaker) (raises : BreakerState → Bool) :
    InMemoryCircuitBreaker × Bool :=
  let breaker := { breaker with failures := 0 }
  -- The present state decides, whatever the state the call was admitted in.
  if breaker.state ≠ .closed then
    { breaker with halfOpenAttempts := 0 }.transition .closed raises
  else (breaker, false)

/-- A call failed. -/
def onFailure (options : InMemoryCircuitBreakerOptions) (breaker : InMemoryCircuitBreaker)
    (now : Int) (raises : BreakerState → Bool) : InMemoryCircuitBreaker × Bool :=
  if breaker.state = .halfOpen then { breaker with openedAt := now }.transition .open raises
  else
    -- An open breaker counts on, and is stamped anew.
    let breaker := { breaker with failures := breaker.failures + 1 }
    if options.failureThreshold ≤ breaker.failures then
      { breaker with openedAt := now }.transition .open raises
    else (breaker, false)

/-- Take one of the probes that a half-open breaker permits. -/
def takeProbe (options : InMemoryCircuitBreakerOptions) (breaker : InMemoryCircuitBreaker) :
    InMemoryCircuitBreaker × Admission :=
  if breaker.state = .halfOpen then
    if options.halfOpenMaxAttempts ≤ breaker.halfOpenAttempts then (breaker, .refused)
    else ({ breaker with halfOpenAttempts := breaker.halfOpenAttempts + 1 }, .admitted)
  else (breaker, .admitted)

/-- `exec` up to the call of the wrapped function. -/
def exec (options : InMemoryCircuitBreakerOptions) (breaker : InMemoryCircuitBreaker) (now : Int)
    (raises : BreakerState → Bool) : InMemoryCircuitBreaker × Admission :=
  if breaker.state = .open then
    if options.cooldownMs ≤ now - breaker.openedAt then
      -- The attempts are forgotten, whichever of them are still running.
      let (breaker, threw) := { breaker with halfOpenAttempts := 0 }.transition .halfOpen raises
      if threw then (breaker, .threw) else breaker.takeProbe options
    else (breaker, .refused)
  else breaker.takeProbe options

/-- `exec` after the wrapped function has settled. -/
def settle (options : InMemoryCircuitBreakerOptions) (breaker : InMemoryCircuitBreaker)
    (now : Int) (raises : BreakerState → Bool) :
    Except ε ν → InMemoryCircuitBreaker × Except (ExecError ε) ν
  | .ok value =>
    let (breaker, threw) := breaker.onSuccess raises
    -- What a listener throws is caught with the failures of the function.
    if threw then ((breaker.onFailure options now raises).1, .error .listener)
    else (breaker, .ok value)
  | .error error =>
    let (breaker, threw) := breaker.onFailure options now raises
    (breaker, .error (if threw then .listener else .fn error))

end InMemoryCircuitBreaker

/-- A call of `exec` that was admitted, with what the breaker was at then. -/
structure BreakerCall where
  /-- Whether the breaker was half-open. -/
  probe : Bool
  /-- How many changes of state there had been. -/
  period : Nat
  settled : Bool
  deriving DecidableEq

/-- A breaker with the calls on it, and what a bystander can tell of it. -/
structure BreakerSystem where
  breaker : InMemoryCircuitBreaker
  calls : List BreakerCall
  /-- What the breaker's clock answers. -/
  now : Int
  /-- When the breaker last entered `open`. -/
  enteredOpenAt : Int

/-- What can happen to a breaker next. -/
inductive BreakerAction (ν ε : Type) where
  /-- A caller calls `exec`. -/
  | exec (raises : BreakerState → Bool)
  /-- The function wrapped by an admitted call settles. -/
  | settled (call : Nat) (result : Except ε ν) (raises : BreakerState → Bool)
  /-- Time passes. -/
  | clock (now : Int)

namespace BreakerSystem

variable {ν ε : Type}

/-- A new breaker on a clock that shows a given time. -/
def init (now : Int) : BreakerSystem := ⟨.new, [], now, 0⟩

/-- The system with its breaker moved on, an entry into `open` being noted. -/
def advance (s : BreakerSystem) (breaker : InMemoryCircuitBreaker) : BreakerSystem :=
  { s with
    breaker
    enteredOpenAt :=
      if .open ∈ breaker.announced.drop s.breaker.announced.length then s.now
      else s.enteredOpenAt }

/-- The effect of an action, where it can happen. -/
def step (options : InMemoryCircuitBreakerOptions) (s : BreakerSystem) :
    BreakerAction ν ε → Option BreakerSystem
  | .exec raises =>
    let (breaker, admission) := s.breaker.exec options s.now raises
    let s := s.advance breaker
    -- Only an admitted call leaves something in flight.
    some <| match admission with
      | .admitted =>
        { s with
          calls := s.calls ++
            [{ probe := breaker.state = .halfOpen
               period := breaker.announced.length
               settled := false }] }
      | .refused | .threw => s
  | .settled c result raises =>
    (s.calls[c]?).bind fun call =>
      if call.settled then none
      else
        let s :=
          { s with calls := s.calls.modify c fun call => { call with settled := true } }
        some (s.advance (s.breaker.settle options s.now raises result).1)
  -- The clock does not go back.
  | .clock now => if s.now ≤ now then some { s with now } else none

end BreakerSystem

end RefPool
