import RefPool.Model.InMemoryBreaker
import RefPool.Lib.Arena
import RefPool.Lib.Runs

/-! What each step of an in-memory breaker can do, said once. -/

namespace RefPool

namespace InMemoryCircuitBreaker

variable {ν ε : Type} {options : InMemoryCircuitBreakerOptions} {breaker : InMemoryCircuitBreaker}
  {raises : BreakerState → Bool} {now : Int}

/-- A success changes the state unless the breaker is closed. -/
theorem onSuccess_recovers (tripped : breaker.state ≠ .closed) :
    breaker.onSuccess raises =
      ({ breaker with
          state := .closed, failures := 0, halfOpenAttempts := 0
          announced := breaker.announced ++ [.closed] }, raises .closed) := by
  -- The transition is one to another state, so it takes place.
  simp [onSuccess, tripped, transition, Ne.symm tripped]

/-- A failure in the closed state counts, and trips the breaker at the threshold. -/
theorem onFailure_closed (closed : breaker.state = .closed) :
    (breaker.onFailure options now raises).1 =
      if options.failureThreshold ≤ (breaker.failures + 1 : Nat) then
        { breaker with
          state := .open, failures := breaker.failures + 1, openedAt := now
          announced := breaker.announced ++ [.open] }
      else { breaker with failures := breaker.failures + 1 } := by
  -- The transition to `open` happens at the threshold.
  simp only [onFailure, closed, reduceCtorEq, if_false]
  split <;> simp [transition]

/-- A failure in the open state counts, and stamps the breaker anew at the threshold. -/
theorem onFailure_open (opened : breaker.state = .open) :
    (breaker.onFailure options now raises).1 =
      if options.failureThreshold ≤ (breaker.failures + 1 : Nat) then
        { breaker with failures := breaker.failures + 1, openedAt := now }
      else { breaker with failures := breaker.failures + 1 } := by
  -- The transition leads to the state that the breaker is in, so only the stamp is written.
  simp only [onFailure, opened, reduceCtorEq, if_false]
  split <;> simp [transition]

/-- A failure in the half-open state opens the breaker. -/
theorem onFailure_halfOpen (halfOpen : breaker.state = .halfOpen) :
    (breaker.onFailure options now raises).1 =
      { breaker with
        state := .open, openedAt := now, announced := breaker.announced ++ [.open] } := by
  -- In this state any failure opens the breaker, whatever the count is.
  simp [onFailure, halfOpen, transition]

end InMemoryCircuitBreaker

namespace BreakerSystem

/-- The calls after one of them settled. -/
def settling (s : BreakerSystem) (c : Nat) : BreakerSystem :=
  { s with calls := s.calls.modify c fun call => { call with settled := true } }

/-- An admitted call is in flight, whether as a probe or not. -/
def calling (s : BreakerSystem) (probe : Bool) : BreakerSystem :=
  { s with
    calls := s.calls ++ [{ probe, period := s.breaker.announced.length, settled := false }] }

/-- The breaker leaves `open` for a new half-open period. -/
def reopening (s : BreakerSystem) (attempts : Nat) : BreakerSystem :=
  { s with
    breaker :=
      { s.breaker with
        state := .halfOpen, halfOpenAttempts := attempts
        announced := s.breaker.announced ++ [.halfOpen] } }

/-- A half-open breaker hands out one more of its probes. -/
def probing (s : BreakerSystem) : BreakerSystem :=
  { s with
    breaker := { s.breaker with halfOpenAttempts := s.breaker.halfOpenAttempts + 1 } }

/-- The breaker enters `closed` with a number of failures on record. -/
def closing (s : BreakerSystem) (failures : Nat) : BreakerSystem :=
  { s with
    breaker :=
      { s.breaker with
        state := .closed, failures, halfOpenAttempts := 0
        announced := s.breaker.announced ++ [.closed] } }

/-- The breaker enters `open` with a number of failures on record. -/
def opening (s : BreakerSystem) (failures : Nat) : BreakerSystem :=
  { s with
    breaker :=
      { s.breaker with
        state := .open, failures, openedAt := s.now
        announced := s.breaker.announced ++ [.open] }
    enteredOpenAt := s.now }

/-- The failures on record change, and the state does not. -/
def counting (s : BreakerSystem) (failures : Nat) (openedAt : Int) : BreakerSystem :=
  { s with breaker := { s.breaker with failures, openedAt } }

/-- What a call that has settled was admitted as. -/
structure Awaited (s : BreakerSystem) (c : Nat) (call : BreakerCall) : Prop where
  found : s.calls[c]? = some call
  running : call.settled = false

/-- The outcomes of a step, one constructor for each way it can go. -/
inductive Effect {ν ε : Type} (options : InMemoryCircuitBreakerOptions) (s : BreakerSystem) :
    BreakerAction ν ε → BreakerSystem → Prop
  /-- A closed breaker admits every call. -/
  | passed (raises : BreakerState → Bool) (closed : s.breaker.state = .closed) :
      Effect options s (.exec raises) (s.calling false)
  /-- An open breaker refuses until it has cooled down. -/
  | cooling (raises : BreakerState → Bool) (opened : s.breaker.state = .open)
      (early : s.now - s.breaker.openedAt < options.cooldownMs) :
      Effect options s (.exec raises) s
  /-- A half-open period starts without a probe. -/
  | reopened (raises : BreakerState → Bool) (opened : s.breaker.state = .open)
      (cooled : options.cooldownMs ≤ s.now - s.breaker.openedAt)
      (unprobed : raises .halfOpen = true ∨ options.halfOpenMaxAttempts ≤ 0) :
      Effect options s (.exec raises) (s.reopening 0)
  /-- A half-open period starts with a probe. -/
  | reprobed (raises : BreakerState → Bool) (opened : s.breaker.state = .open)
      (cooled : options.cooldownMs ≤ s.now - s.breaker.openedAt)
      (heard : raises .halfOpen = false) (permitted : 0 < options.halfOpenMaxAttempts) :
      Effect options s (.exec raises) ((s.reopening 1).calling true)
  /-- A half-open breaker has used up its probes. -/
  | full (raises : BreakerState → Bool) (halfOpen : s.breaker.state = .halfOpen)
      (spent : options.halfOpenMaxAttempts ≤ s.breaker.halfOpenAttempts) :
      Effect options s (.exec raises) s
  /-- A half-open breaker admits one more probe. -/
  | probed (raises : BreakerState → Bool) (halfOpen : s.breaker.state = .halfOpen)
      (permitted : s.breaker.halfOpenAttempts < options.halfOpenMaxAttempts) :
      Effect options s (.exec raises) (s.probing.calling true)
  /-- A success in the closed state. -/
  | succeeded (c : Nat) (call : BreakerCall) (value : ν) (raises : BreakerState → Bool)
      (awaited : s.Awaited c call) (closed : s.breaker.state = .closed) :
      Effect options s (.settled c (.ok value) raises)
        ((s.settling c).counting 0 s.breaker.openedAt)
  /-- A success in another state. -/
  | recovered (c : Nat) (call : BreakerCall) (value : ν) (raises : BreakerState → Bool)
      (awaited : s.Awaited c call) (tripped : s.breaker.state ≠ .closed)
      (heard : raises .closed = false) :
      Effect options s (.settled c (.ok value) raises) ((s.settling c).closing 0)
  /-- A success in another state that a listener turns into a failure. -/
  | spoiled (c : Nat) (call : BreakerCall) (value : ν) (raises : BreakerState → Bool)
      (awaited : s.Awaited c call) (tripped : s.breaker.state ≠ .closed)
      (raised : raises .closed = true) (below : 1 < options.failureThreshold) :
      Effect options s (.settled c (.ok value) raises) ((s.settling c).closing 1)
  /-- A success in another state that a listener turns into a failure that trips the breaker. -/
  | relapsed (c : Nat) (call : BreakerCall) (value : ν) (raises : BreakerState → Bool)
      (awaited : s.Awaited c call) (tripped : s.breaker.state ≠ .closed)
      (raised : raises .closed = true) (reached : options.failureThreshold ≤ 1) :
      Effect options s (.settled c (.ok value) raises) (((s.settling c).closing 1).opening 1)
  /-- A failure in the closed state below the threshold. -/
  | counted (c : Nat) (call : BreakerCall) (error : ε) (raises : BreakerState → Bool)
      (awaited : s.Awaited c call) (closed : s.breaker.state = .closed)
      (below : (s.breaker.failures + 1 : Nat) < options.failureThreshold) :
      Effect options s (.settled c (.error error) raises)
        ((s.settling c).counting (s.breaker.failures + 1) s.breaker.openedAt)
  /-- A failure in the closed state at the threshold. -/
  | tripped (c : Nat) (call : BreakerCall) (error : ε) (raises : BreakerState → Bool)
      (awaited : s.Awaited c call) (closed : s.breaker.state = .closed)
      (reached : options.failureThreshold ≤ (s.breaker.failures + 1 : Nat)) :
      Effect options s (.settled c (.error error) raises)
        ((s.settling c).opening (s.breaker.failures + 1))
  /-- A failure in the half-open state. -/
  | failed (c : Nat) (call : BreakerCall) (error : ε) (raises : BreakerState → Bool)
      (awaited : s.Awaited c call) (halfOpen : s.breaker.state = .halfOpen) :
      Effect options s (.settled c (.error error) raises)
        ((s.settling c).opening s.breaker.failures)
  /-- A failure in the open state. -/
  | late (c : Nat) (call : BreakerCall) (error : ε) (raises : BreakerState → Bool)
      (awaited : s.Awaited c call) (opened : s.breaker.state = .open) (openedAt : Int)
      (stamped : openedAt =
        if options.failureThreshold ≤ (s.breaker.failures + 1 : Nat) then s.now
        else s.breaker.openedAt) :
      Effect options s (.settled c (.error error) raises)
        ((s.settling c).counting (s.breaker.failures + 1) openedAt)
  | clock (now : Int) (later : s.now ≤ now) : Effect options s (.clock now) { s with now }

variable {ν ε : Type} {options : InMemoryCircuitBreakerOptions} {s next : BreakerSystem}

/-- The system a breaker moves on to, told by what it announces. -/
theorem advance_to {target : BreakerSystem} (news : List BreakerState)
    (announced : target.breaker.announced = s.breaker.announced ++ news)
    (calls : target.calls = s.calls) (now : target.now = s.now)
    (entered : target.enteredOpenAt = if .open ∈ news then s.now else s.enteredOpenAt) :
    s.advance target.breaker = target := by
  -- Only the entry into `open` is read off the announcements.
  obtain ⟨breaker, targetCalls, targetNow, enteredOpenAt⟩ := target
  simp only at announced calls now entered
  subst calls now entered
  simp [advance, announced]

open InMemoryCircuitBreaker in
/-- A call of `exec` has one of the effects. -/
theorem effect_of_exec {raises : BreakerState → Bool}
    (stepped : s.step options (.exec raises : BreakerAction ν ε) = some next) :
    Effect options s (.exec raises : BreakerAction ν ε) next := by
  have stays : s.advance s.breaker = s := advance_to [] (by simp) rfl rfl (by simp)
  -- The state before the call decides what it finds.
  cases state : s.breaker.state with
  | closed =>
    have same : s.breaker.exec options s.now raises = (s.breaker, .admitted) := by
      simp [exec, takeProbe, state]
    simp only [step, same, stays, state, Option.some.injEq] at stepped
    subst stepped
    exact .passed raises state
  | «open» =>
    -- An open breaker becomes half-open after the cooldown, and then may have a probe.
    by_cases cooled : options.cooldownMs ≤ s.now - s.breaker.openedAt
    · have moved (attempts : Nat) : s.advance (s.reopening attempts).breaker =
          s.reopening attempts := advance_to [.halfOpen] rfl rfl rfl (by simp [reopening])
      by_cases raised : raises .halfOpen = true
      · have same : s.breaker.exec options s.now raises =
            ((s.reopening 0).breaker, .threw) := by
          simp [exec, transition, state, cooled, raised, reopening]
        simp only [step, same, moved, Option.some.injEq] at stepped
        subst stepped
        exact .reopened raises state cooled (.inl raised)
      · by_cases permitted : 0 < options.halfOpenMaxAttempts
        · have same : s.breaker.exec options s.now raises =
              ((s.reopening 1).breaker, .admitted) := by
            simp [exec, transition, takeProbe, state, cooled, raised, reopening, permitted]
          simp only [step, same, moved, Option.some.injEq] at stepped
          subst stepped
          exact .reprobed raises state cooled (by simpa using raised) permitted
        · have same : s.breaker.exec options s.now raises =
              ((s.reopening 0).breaker, .refused) := by
            simp [exec, transition, takeProbe, state, cooled, raised, reopening, permitted]
          simp only [step, same, moved, Option.some.injEq] at stepped
          subst stepped
          exact .reopened raises state cooled (.inr (by omega))
    · have same : s.breaker.exec options s.now raises = (s.breaker, .refused) := by
        simp [exec, state, cooled]
      simp only [step, same, stays, Option.some.injEq] at stepped
      subst stepped
      exact .cooling raises state (by omega)
  | halfOpen =>
    -- A half-open breaker admits probes up to its limit.
    by_cases spent : options.halfOpenMaxAttempts ≤ s.breaker.halfOpenAttempts
    · have same : s.breaker.exec options s.now raises = (s.breaker, .refused) := by
        simp [exec, takeProbe, state, spent]
      simp only [step, same, stays, Option.some.injEq] at stepped
      subst stepped
      exact .full raises state spent
    · have same : s.breaker.exec options s.now raises = (s.probing.breaker, .admitted) := by
        simp [exec, takeProbe, state, spent, probing]
      have moved : s.advance s.probing.breaker = s.probing :=
        advance_to [] (by simp [probing]) rfl rfl (by simp [probing])
      simp only [step, same, moved, Option.some.injEq] at stepped
      subst stepped
      have called : { s.probing with
          calls := s.probing.calls ++
            [{ probe := s.probing.breaker.state = .halfOpen
               period := s.probing.breaker.announced.length
               settled := false }] } = s.probing.calling true := by
        simp [probing, calling, state]
      rw [called]
      exact .probed raises state (by omega)

open InMemoryCircuitBreaker in
/-- The settlement of a call has one of the effects. -/
theorem effect_of_settled {c : Nat} {result : Except ε ν} {raises : BreakerState → Bool}
    (stepped : s.step options (.settled c result raises) = some next) :
    Effect options s (.settled c result raises) next := by
  simp only [step, Option.bind_eq_some_iff] at stepped
  obtain ⟨call, found, stepped⟩ := stepped
  split at stepped
  · cases stepped
  rename_i running
  have awaited : s.Awaited c call := ⟨found, by simpa using running⟩
  obtain rfl := Option.some.inj stepped
  -- It is enough to name the system that the settlement leads to, and what it announces.
  have reaches (target : BreakerSystem) (news : List BreakerState)
      (effect : Effect options s (.settled c result raises) target)
      (same : (s.breaker.settle options s.now raises result).1 = target.breaker)
      (announced : target.breaker.announced = s.breaker.announced ++ news)
      (calls : target.calls = (s.settling c).calls) (now : target.now = s.now)
      (entered : target.enteredOpenAt = if .open ∈ news then s.now else s.enteredOpenAt) :
      Effect options s (.settled c result raises)
        ((s.settling c).advance (s.breaker.settle options s.now raises result).1) := by
    rw [same, advance_to (s := s.settling c) news announced calls now entered]
    exact effect
  cases result with
  | ok value =>
    by_cases closed : s.breaker.state = .closed
    · exact reaches _ [] (.succeeded c call value raises awaited closed)
        (by simp [settle, onSuccess, closed, counting, settling]) (by simp [counting, settling])
        rfl rfl (by simp [counting, settling])
    · have recovers : s.breaker.onSuccess raises = _ := onSuccess_recovers closed
      by_cases raised : raises .closed = true
      · -- The exception lands in the `catch`, with the breaker closed by then.
        by_cases reached : options.failureThreshold ≤ 1
        · exact reaches _ [.closed, .open] (.relapsed c call value raises awaited closed raised
            reached)
            (by simp [settle, recovers, raised, onFailure_closed, reached, closing, opening,
              settling])
            (by simp [closing, opening, settling]) rfl rfl (by simp [opening, closing, settling])
        · exact reaches _ [.closed] (.spoiled c call value raises awaited closed raised (by omega))
            (by simp [settle, recovers, raised, onFailure_closed, reached, closing, settling])
            (by simp [closing, settling]) rfl rfl (by simp [closing, settling])
      · exact reaches _ [.closed] (.recovered c call value raises awaited closed (by simpa using
          raised))
          (by simp [settle, recovers, raised, closing, settling])
          (by simp [closing, settling]) rfl rfl (by simp [closing, settling])
  -- A failure is counted unless the breaker is half-open.
  | error error =>
    have same : (s.breaker.settle options s.now raises (.error error : Except ε ν)).1 =
        (s.breaker.onFailure options s.now raises).1 := rfl
    cases state : s.breaker.state with
    | closed =>
      by_cases reached : options.failureThreshold ≤ (s.breaker.failures + 1 : Nat)
      · exact reaches _ [.open] (.tripped c call error raises awaited state reached)
          (by rw [same, onFailure_closed state, if_pos reached]; simp [opening, settling])
          (by simp [opening, settling]) rfl rfl (by simp [opening, settling])
      · exact reaches _ [] (.counted c call error raises awaited state (by omega))
          (by rw [same, onFailure_closed state, if_neg reached]; simp [counting, settling])
          (by simp [counting, settling]) rfl rfl (by simp [counting, settling])
    | «open» =>
      refine reaches _ [] (.late c call error raises awaited state _ rfl) ?_
        (by simp [counting, settling]) rfl rfl (by simp [counting, settling])
      rw [same, onFailure_open state]
      split <;> simp [counting, settling]
    | halfOpen =>
      exact reaches _ [.open] (.failed c call error raises awaited state)
        (by rw [same, onFailure_halfOpen state]; simp [opening, settling])
        (by simp [opening, settling]) rfl rfl (by simp [opening, settling])

/-- Every step has one of the effects. -/
theorem effect_of_step {action : BreakerAction ν ε} (stepped : s.step options action = some next) :
    Effect options s action next := by
  -- The two halves of `exec` have lemmas of their own.
  cases action with
  | exec raises => exact effect_of_exec stepped
  | settled c result raises => exact effect_of_settled stepped
  | clock now =>
    simp only [step] at stepped
    split at stepped
    · rename_i later
      obtain rfl := Option.some.inj stepped
      exact .clock now later
    · cases stepped

end BreakerSystem

end RefPool
