import RefPool.Proofs.BreakerEffect

/-! What an in-memory breaker comes to when the calls on it never overlap. -/

namespace RefPool

/-- A breaker on calls that follow one another. -/
inductive SequentialBreaker where
  /-- Closed, with the failures since the last success. -/
  | counting (failures : Nat)
  /-- Open since a moment. -/
  | tripped (since : Int)
  /-- Half-open, so that the call in flight decides. -/
  | probing
  deriving DecidableEq, Repr

namespace SequentialBreaker

/-- The state that the breaker shows. -/
def state : SequentialBreaker → BreakerState
  | .counting _ => .closed
  | .tripped _ => .open
  | .probing => .halfOpen

/-- A call, and whether it is admitted. -/
def call (settings : InMemoryCircuitBreakerOptions) (now : Int) :
    SequentialBreaker → SequentialBreaker × Bool
  | .counting failures => (.counting failures, true)
  | .tripped since =>
    -- Of the number of probes permitted only matters whether it is zero.
    if settings.cooldownMs ≤ now - since then
      (.probing, decide (0 < settings.halfOpenMaxAttempts))
    else (.tripped since, false)
  | .probing => (.probing, false)

/-- The end of the call in flight. -/
def settle (settings : InMemoryCircuitBreakerOptions) (now : Int) (succeeded : Bool) :
    SequentialBreaker → SequentialBreaker
  | .counting failures =>
    if succeeded then .counting 0
    else if settings.failureThreshold ≤ (failures + 1 : Nat) then .tripped now
    else .counting (failures + 1)
  -- An open breaker has no call in flight that could end.
  | .tripped since => .tripped since
  | .probing => if succeeded then .counting 0 else .tripped now

/-- What a breaker announces on its way from one mode to another. -/
def news (before after : SequentialBreaker) : List BreakerState :=
  if after.state = before.state then [] else [after.state]

/-- What happens to the breaker of a key. -/
inductive Event where
  /-- `exec` is called, and admits the call or refuses it. -/
  | called (now : Int) (admitted : Bool)
  /-- The factory call in flight ends. -/
  | settled (now : Int) (succeeded : Bool)
  /-- The breaker is dropped, and the next call finds a new one. -/
  | forgotten
  deriving DecidableEq

/-- A breaker, and whether its call is in flight. -/
structure Standing where
  mode : SequentialBreaker
  busy : Bool
  deriving DecidableEq

/-- The effect of an event, where it can happen. -/
def Standing.step (settings : InMemoryCircuitBreakerOptions) :
    Standing → Event → Option Standing
  | ⟨mode, false⟩, .called now admitted =>
    if (mode.call settings now).2 = admitted then some ⟨(mode.call settings now).1, admitted⟩
    else none
  | ⟨mode, true⟩, .settled now succeeded => some ⟨mode.settle settings now succeeded, false⟩
  -- A breaker that protects is not dropped, nor is one with a call in flight.
  | ⟨.counting _, false⟩, .forgotten => some ⟨.counting 0, false⟩
  | _, _ => none

/-- A half-open breaker that permits no probe refuses every call, and nothing else happens to it. -/
theorem Standing.stuck {settings : InMemoryCircuitBreakerOptions}
    {events : List Event} {last : Standing}
    (ran : Runs.run (Standing.step settings) ⟨.probing, false⟩ events = some last) :
    last = ⟨.probing, false⟩ ∧ ∀ event ∈ events, ∃ now, event = .called now false := by
  -- Each event leaves the breaker as it is.
  induction events with
  | nil => exact ⟨(Option.some.inj ran).symm, by simp⟩
  | cons event rest ih =>
    obtain ⟨next, stepped, ran⟩ := Runs.run_cons_eq_some.mp ran
    cases event with
    | settled now succeeded => simp [Standing.step] at stepped
    | forgotten => simp [Standing.step] at stepped
    | called now admitted =>
      obtain ⟨refused, same⟩ := Option.ite_none_right_eq_some.mp stepped
      obtain rfl : false = admitted := refused
      obtain rfl := Option.some.inj same
      obtain ⟨stays, others⟩ := ih ran
      refine ⟨stays, fun event inside => ?_⟩
      rcases List.mem_cons.mp inside with rfl | later
      · exact ⟨now, rfl⟩
      · exact others event later

end SequentialBreaker

namespace InMemoryCircuitBreaker

variable {settings : InMemoryCircuitBreakerOptions} {breaker : InMemoryCircuitBreaker} {now : Int}

/-- A breaker without what only overlapping calls make use of. -/
def mode (breaker : InMemoryCircuitBreaker) : SequentialBreaker :=
  match breaker.state with
  | .closed => .counting breaker.failures
  | .open => .tripped breaker.openedAt
  | .halfOpen => .probing

/-- The mode shows the state of the breaker. -/
@[simp] theorem mode_state (breaker : InMemoryCircuitBreaker) :
    breaker.mode.state = breaker.state := by
  -- Each state has its mode.
  unfold mode
  cases state : breaker.state <;> rfl

/-- What a breaker has on record while at most one call is in flight on it. -/
structure Sole (settings : InMemoryCircuitBreakerOptions) (breaker : InMemoryCircuitBreaker)
    (busy : Bool) : Prop where
  /-- A call that was in flight when the breaker opened would be a second one. -/
  opened : breaker.state = .open → busy = false
  /-- A half-open breaker waits for its probe, unless it permits none. -/
  halfOpen : breaker.state = .halfOpen →
    (busy = true ∧ breaker.halfOpenAttempts = 1 ∧ 0 < settings.halfOpenMaxAttempts) ∨
      (busy = false ∧ breaker.halfOpenAttempts = 0 ∧ settings.halfOpenMaxAttempts ≤ 0)

/-- A new breaker counts from zero. -/
@[simp] theorem mode_new : new.mode = .counting 0 := rfl

/-- A new breaker has no call in flight. -/
theorem sole_new : new.Sole settings false := by
  -- It is closed, and has not counted anything.
  constructor <;> simp [new]

/-- What `exec` does to a breaker with no call in flight, as the mode tells it. -/
structure Called (settings : InMemoryCircuitBreakerOptions) (breaker : InMemoryCircuitBreaker)
    (now : Int) (after : InMemoryCircuitBreaker) (admission : Admission) : Prop where
  answer : admission = .admitted ∨ admission = .refused
  mode : breaker.mode.call settings now = (after.mode, decide (admission = .admitted))
  sole : after.Sole settings (decide (admission = .admitted))
  announced : after.announced = breaker.announced ++ breaker.mode.news after.mode

/-- `exec` on a breaker with no call in flight goes by the mode. -/
theorem exec_called (sole : breaker.Sole settings false) {after : InMemoryCircuitBreaker}
    {admission : Admission}
    (called : breaker.exec settings now (fun _ => false) = (after, admission)) :
    Called settings breaker now after admission := by
  -- It is enough to name what the call leads to.
  have leads (target : InMemoryCircuitBreaker) (answer : Admission)
      (same : breaker.exec settings now (fun _ => false) = (target, answer))
      (goes : Called settings breaker now target answer) :
      Called settings breaker now after admission := by
    obtain ⟨rfl, rfl⟩ := Prod.mk.inj (same.symm.trans called)
    exact goes
  cases state : breaker.state with
  | closed =>
    apply leads breaker .admitted (by simp [exec, takeProbe, state])
    refine ⟨.inl rfl, ?_, ?_, by simp [SequentialBreaker.news]⟩
    · simp [mode, state, SequentialBreaker.call]
    · constructor <;> simp [state]
  | «open» =>
    by_cases cooled : settings.cooldownMs ≤ now - breaker.openedAt
    -- A half-open period starts, with a probe where one is permitted.
    · by_cases permitted : 0 < settings.halfOpenMaxAttempts
      · apply leads
          { breaker with
            state := .halfOpen, halfOpenAttempts := 1
            announced := breaker.announced ++ [.halfOpen] } .admitted
        · simp [exec, transition, takeProbe, state, cooled, permitted]
        refine ⟨.inl rfl, ?_, ?_, ?_⟩
        · simp [mode, state, SequentialBreaker.call, cooled, permitted]
        · constructor <;> simp [permitted]
        · simp [SequentialBreaker.news, mode, state, SequentialBreaker.state]
      · apply leads
          { breaker with
            state := .halfOpen, halfOpenAttempts := 0
            announced := breaker.announced ++ [.halfOpen] } .refused
        · simp [exec, transition, takeProbe, state, cooled, permitted]
        refine ⟨.inr rfl, ?_, ?_, ?_⟩
        · simp [mode, state, SequentialBreaker.call, cooled, permitted]
        · constructor
          · simp
          · exact fun _ => .inr ⟨rfl, rfl, by omega⟩
        · simp [SequentialBreaker.news, mode, state, SequentialBreaker.state]
    · apply leads breaker .refused (by simp [exec, state, cooled])
      refine ⟨.inr rfl, ?_, ?_, by simp [SequentialBreaker.news]⟩
      · simp [mode, state, SequentialBreaker.call, cooled]
      · constructor <;> simp [state]
  -- A half-open breaker without a probe in flight permits none.
  | halfOpen =>
    obtain ⟨-, attempts, forbidden⟩ := (sole.halfOpen state).resolve_left (by simp)
    apply leads breaker .refused (by simp [exec, takeProbe, state, attempts, forbidden])
    refine ⟨.inr rfl, ?_, ?_, by simp [SequentialBreaker.news]⟩
    · simp [mode, state, SequentialBreaker.call]
    · exact ⟨by simp [state], fun _ => .inr ⟨rfl, attempts, forbidden⟩⟩

/-- What the end of the only call in flight does to a breaker, as the mode tells it. -/
structure Settled (settings : InMemoryCircuitBreakerOptions) (breaker : InMemoryCircuitBreaker)
    (now : Int) (succeeded : Bool) (after : InMemoryCircuitBreaker) : Prop where
  mode : breaker.mode.settle settings now succeeded = after.mode
  sole : after.Sole settings false
  announced : after.announced = breaker.announced ++ breaker.mode.news after.mode

/-- The end of the only call in flight goes by the mode. -/
theorem settle_settled {ν ε : Type} (sole : breaker.Sole settings true) (now : Int)
    (result : Except ε ν) :
    Settled settings breaker now result.isOk
      (breaker.settle settings now (fun _ => false) result).1 := by
  -- A half-open breaker is decided, and a closed one counts.
  cases result with
  | ok value =>
    show Settled settings breaker now true _
    cases state : breaker.state with
    | closed =>
      have same : (breaker.settle settings now (fun _ => false)
          (.ok value : Except ε ν)).1 = { breaker with failures := 0 } := by
        simp [settle, onSuccess, state]
      rw [same]
      refine ⟨by simp [mode, state, SequentialBreaker.settle], ?_, ?_⟩
      · constructor <;> simp [state]
      · simp [SequentialBreaker.news, mode, state, SequentialBreaker.state]
    | «open» => exact absurd (sole.opened state) (by simp)
    | halfOpen =>
      have same : (breaker.settle settings now (fun _ => false) (.ok value : Except ε ν)).1 =
          { breaker with
            state := .closed, failures := 0, halfOpenAttempts := 0
            announced := breaker.announced ++ [.closed] } := by
        simp [settle, onSuccess_recovers, state]
      rw [same]
      refine ⟨by simp [mode, state, SequentialBreaker.settle], ?_, ?_⟩
      · constructor <;> simp
      · simp [SequentialBreaker.news, mode, state, SequentialBreaker.state]
  | error error =>
    show Settled settings breaker now false (breaker.onFailure settings now _).1
    cases state : breaker.state with
    | closed =>
      rw [onFailure_closed state]
      -- Below the threshold the failure is only counted.
      split
      · rename_i reached
        refine ⟨by simp only [mode, state, SequentialBreaker.settle, reached, if_true, if_false,
          Bool.false_eq_true], ?_, ?_⟩
        · constructor <;> simp
        · simp [SequentialBreaker.news, mode, state, SequentialBreaker.state]
      · rename_i below
        refine ⟨by simp only [mode, state, SequentialBreaker.settle, below, if_false,
          Bool.false_eq_true], ?_, ?_⟩
        · constructor <;> simp [state]
        · simp [SequentialBreaker.news, mode, state, SequentialBreaker.state]
    | «open» => exact absurd (sole.opened state) (by simp)
    | halfOpen =>
      -- A probe that fails opens the breaker again.
      rw [onFailure_halfOpen state]
      refine ⟨by simp [mode, state, SequentialBreaker.settle], ?_, ?_⟩
      · constructor <;> simp
      · simp [SequentialBreaker.news, mode, state, SequentialBreaker.state]

end InMemoryCircuitBreaker

end RefPool
