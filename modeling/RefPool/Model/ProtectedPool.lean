import RefPool.Model.Step
import RefPool.Model.InMemoryBreaker
import RefPool.Lib.Runs

/-! A pool together with the `InMemoryCircuitBreaker`s it calls its factory through. -/

namespace RefPool

/-- Where a call of `exec` stands. -/
inductive ExecStage (τ : Type) where
  /-- The breaker refused the call, and `exec` throws `CircuitOpenError`. -/
  | refused
  /-- The factory has been called, and `exec` awaits it. -/
  | awaiting (call : FactoryId)
  /-- The breaker has recorded how the factory call ended, and `exec` settles likewise. -/
  | recorded (outcome : Option τ)
  deriving DecidableEq

/-- A call of `exec` on one of the breakers. -/
structure BreakerRun (τ : Type) where
  breaker : BreakerId
  stage : ExecStage τ
  deriving DecidableEq

/--
A pool with its breakers, and with the calls of `exec` as the breakers see them.

Nobody but the pool listens to the breakers, and a breaker factory that throws is left out.
-/
structure ProtectedPool (κ τ : Type) where
  pool : State κ τ
  /-- The breakers, at the addresses that the pool has for them. -/
  breakers : List InMemoryCircuitBreaker
  /-- The calls of `exec`, in the order in which the pool makes them. -/
  runs : List (BreakerRun τ)

/-- What runs next in a pool with its breakers. -/
inductive ProtectedAction (κ τ : Type) where
  /-- A step of the pool that concerns no breaker. -/
  | pool (action : Action κ τ)
  /-- `obtain` resolves its breaker and calls `exec`, which calls the factory or refuses. -/
  | create (acquire : AcquireId)
  /-- `exec` goes on after the factory call that it awaits has settled. -/
  | record (exec : ExecId)
  /-- `obtain` goes on after `exec` has settled. -/
  | settle (exec : ExecId)

/-- Whether a step of the pool is one that its breakers make. -/
def Action.ofBreaker {κ τ : Type} : Action κ τ → Bool
  | .create _ _ | .factoryCalled _ | .execSettled _ _ | .breakerChanged _ _ => true
  | _ => false

namespace ProtectedPool

variable {κ τ : Type} [DecidableEq κ]

/-- A new pool, whose shared breaker, if it has one, is new as well. -/
def init (options : PoolOptions) : ProtectedPool κ τ where
  pool := .init options
  breakers := match options.breaker with
    | .shared _ _ => [.new]
    | .factory => []
  runs := []

/-- The breaker that the pool has for a key. -/
def breakerFor (options : PoolOptions) (pool : State κ τ) (key : κ) : Option BreakerId :=
  match options.breaker with
  | .shared _ _ => some 0
  | .factory => pool.breakers.get? key

/-- The listener of the pool hears what a breaker announced while it moved on. -/
def announce (options : PoolOptions) (pool : State κ τ) (b : BreakerId)
    (before after : InMemoryCircuitBreaker) : Option (State κ τ) :=
  -- The listener throws nothing, since the emitter keeps the exceptions of its own listeners.
  Runs.run (State.step options) pool
    ((after.announced.drop before.announced.length).map (.breakerChanged b))

/-- The breakers that the pool was given meanwhile are new. -/
def equip (s : ProtectedPool κ τ) : ProtectedPool κ τ :=
  { s with
    breakers := s.breakers ++ List.replicate (s.pool.objects.length - s.breakers.length) .new }

/--
`breaker.exec` up to its await.

The only listener on a state change is the pool's own, which does not throw.
-/
def exec (options : PoolOptions) (settings : InMemoryCircuitBreakerOptions)
    (s : ProtectedPool κ τ) (b : BreakerId) : Option (ProtectedPool κ τ) :=
  (s.breakers[b]?).bind fun breaker =>
    let (after, admission) := breaker.exec settings s.pool.now fun _ => false
    (announce options s.pool b breaker after).bind fun pool =>
      let breakers := s.breakers.modify b fun _ => after
      match admission with
      | .admitted =>
        -- The factory is called at once, without a turn of the event loop in between.
        (pool.step options (.factoryCalled s.runs.length)).map fun next =>
          { pool := next
            breakers
            runs := s.runs ++ [{ breaker := b, stage := .awaiting pool.factoryCalls.length }] }
      | .refused | .threw =>
        some { pool, breakers, runs := s.runs ++ [{ breaker := b, stage := .refused }] }

/-- What a breaker learns of a factory call: how it ended, but not what it rejected with. -/
def resultOf : Option τ → Except Unit τ
  | some resource => .ok resource
  | none => .error ()

/-- `breaker.exec` after its await, again with no listener that throws. -/
def record (options : PoolOptions) (settings : InMemoryCircuitBreakerOptions)
    (s : ProtectedPool κ τ) (x : ExecId) (b : BreakerId) (outcome : Option τ) :
    Option (ProtectedPool κ τ) :=
  (s.breakers[b]?).bind fun breaker =>
    let after := (breaker.settle settings s.pool.now (fun _ => false) (resultOf outcome)).1
    (announce options s.pool b breaker after).map fun pool =>
      { pool
        breakers := s.breakers.modify b fun _ => after
        runs := s.runs.modify x fun run => { run with stage := .recorded outcome } }

/-- The effect of an action, where it can happen. -/
def step (options : PoolOptions) (settings : InMemoryCircuitBreakerOptions)
    (s : ProtectedPool κ τ) : ProtectedAction κ τ → Option (ProtectedPool κ τ)
  | .pool action =>
    if action.ofBreaker then none
    else (s.pool.step options action).map fun pool => { s with pool }
  | .create a =>
    -- The factory of the breakers makes a new one wherever it is asked, and never throws.
    (s.pool.step options (.create a (.made true))).bind fun pool =>
      ((pool.acquires[a]?).bind fun acquire => breakerFor options pool acquire.key).bind
        (({ s with pool } : ProtectedPool κ τ).equip.exec options settings)
  | .record x =>
    (s.runs[x]?).bind fun run =>
      match run.stage with
      | .awaiting c =>
        (s.pool.factoryCalls[c]?).bind fun call =>
          match call.outcome with
          | .pending => none
          | .rejected => s.record options settings x run.breaker none
          | .fulfilled resource => s.record options settings x run.breaker (some resource)
      | .refused | .recorded _ => none
  | .settle x =>
    (s.runs[x]?).bind fun run =>
      match run.stage with
      | .awaiting _ => none
      | .refused => (s.pool.step options (.execSettled x none)).map fun pool => { s with pool }
      | .recorded outcome =>
        (s.pool.step options (.execSettled x outcome)).map fun pool => { s with pool }

end ProtectedPool

end RefPool
