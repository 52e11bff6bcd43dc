import RefPool.Lib.OrderedMap

/-! The records of the pool: entries, mutex cells, parked waiters, options, events and counters. -/

namespace RefPool

/-- The address of an `Entry` object. -/
abbrev EntryId := Nat

/-- A call of `acquire`, numbered in call order. -/
abbrev AcquireId := Nat

/-- A handle returned by `checkout`, numbered in the order of issue. -/
abbrev HandleId := Nat

/-- The address of a `MutexCell` object. -/
abbrev CellId := Nat

/-- The address of a `CapacityWaiter` object. -/
abbrev WaiterId := Nat

/-- The address of a circuit breaker object. -/
abbrev BreakerId := Nat

/-- A call of `breaker.exec`, numbered in call order. -/
abbrev ExecId := Nat

/-- A call of `options.factory`, numbered in call order. -/
abbrev FactoryId := Nat

/-- A call of `drain`, numbered in call order. -/
abbrev DrainId := Nat

/-- A promise made by `awaitDisposal`, numbered in the order of creation. -/
abbrev DisposalWaitId := Nat

/-- The reasons an acquire rejects with. -/
inductive PoolError where
  /-- `PoolClosedError`. -/
  | poolClosed
  /-- `AcquireTimeoutError`. -/
  | acquireTimeout
  /-- `PoolExhaustedError`. -/
  | poolExhausted
  /-- What `options.validate` threw or rejected with. -/
  | validateFailed
  /-- What the per-key breaker factory threw. -/
  | breakerFactoryFailed
  /-- What `breaker.exec` rejected with. -/
  | execFailed
  deriving DecidableEq, Repr

/-- The text of the errors the pool itself raises. -/
def PoolError.message : PoolError → Option String
  | .poolClosed => some "refpool: pool is closed (stop/drain in progress)"
  | .acquireTimeout => some "refpool: timed out waiting for pool capacity"
  | .poolExhausted => some "refpool: pool is saturated and the waiter queue is full"
  -- The rest are whatever the callback raised, passed on as it is.
  | .validateFailed | .breakerFactoryFailed | .execFailed => none

/-- The states of a circuit breaker. -/
inductive BreakerState where
  | closed
  | open
  | halfOpen
  deriving DecidableEq, Repr

/-- A timeout option: a number of milliseconds, or `Infinity`. -/
inductive Duration where
  | ms (count : Int)
  | infinity
  deriving DecidableEq, Repr

/-- The `breaker` option: one breaker for the pool, or a factory invoked once per key. -/
inductive BreakerOption where
  /-- A shared breaker, with or without `onStateChange`, in the state the pool finds it in. -/
  | shared (observable : Bool) (state : BreakerState := .closed)
  /-- A per-key breaker factory. -/
  | factory
  deriving DecidableEq, Repr

/-- The options the pool logic reads. Callbacks appear by their presence only. -/
structure PoolOptions where
  /-- Upper bound on live keyed resources. Disabled when not positive. -/
  max : Int
  /-- How long an acquire may wait for capacity. -/
  acquireTimeoutMs : Option Duration := none
  /-- Cap on the queue of waiting acquires. -/
  maxWaiters : Option Int := none
  /-- Idle time after which the sweep reclaims a resource. -/
  idleTtlMs : Option Int := none
  /-- Cadence of the key-state collection. -/
  mutexGcMs : Option Int := none
  /-- Cadence of the `stats` event. -/
  statsIntervalMs : Option Int := none
  /-- Whether a `validate` callback is given. -/
  validate : Bool := false
  /-- The breaker, `noopBreaker` by default. -/
  breaker : BreakerOption := .shared false

/-- The timeout in force: thirty seconds unless the option is given. -/
def PoolOptions.timeout (options : PoolOptions) : Duration :=
  options.acquireTimeoutMs.getD (.ms 30000)

/-- One pooled resource. The list links are kept by the store's idle sequence. -/
structure Entry (κ τ : Type) where
  key : κ
  resource : τ
  refCount : Nat
  lastReleasedAt : Int
  /-- Captured by a drain, disposed the moment `refCount` returns to zero. -/
  condemned : Bool
  disposed : Bool
  /-- Whether the `disposing` promise exists, which is when `options.dispose` was called. -/
  disposing : Bool
  disposeWaiters : List DisposalWaitId
  inIdle : Bool

/-- A per-key mutex: the call its tail is the result of, and the calls not settled yet. -/
structure MutexCell where
  tail : Option AcquireId
  pending : Nat
  lastUsed : Int

/-- The promise an `acquire` parked on a waiter awaits. -/
inductive WaiterPromise where
  | pending
  | resolved
  | rejected (error : PoolError)
  deriving DecidableEq, Repr

/-- A parked `acquire` waiting for a capacity slot. -/
structure CapacityWaiter where
  promise : WaiterPromise
  /-- The instant its timer fires at, while the timer is armed. -/
  timer : Option Int
  settled : Bool

/-- A circuit breaker as the pool sees it. -/
structure Breaker (κ : Type) where
  state : BreakerState
  /-- The key it was wired for, absent for the shared breaker. -/
  key : Option κ
  /-- Whether the pool's state-change listener is attached. -/
  subscribed : Bool

/-- Why an entry was evicted. -/
inductive EvictReason where
  | lru
  | ttl
  | drain
  deriving DecidableEq, Repr

/-- Transitions counted per breaker state entered. -/
structure BreakerCounts where
  toClosed : Nat := 0
  toOpen : Nat := 0
  toHalfOpen : Nat := 0
  deriving DecidableEq, Repr

/-- Count one more transition into a state. -/
def BreakerCounts.bump (counts : BreakerCounts) : BreakerState → BreakerCounts
  | .closed => { counts with toClosed := counts.toClosed + 1 }
  | .open => { counts with toOpen := counts.toOpen + 1 }
  | .halfOpen => { counts with toHalfOpen := counts.toHalfOpen + 1 }

/-- The cumulative counters. -/
structure Counters where
  created : Nat := 0
  disposed : Nat := 0
  evicted : Nat := 0
  hits : Nat := 0
  misses : Nat := 0
  breaker : BreakerCounts := {}
  deriving DecidableEq, Repr

/-- A snapshot returned by `getStats`. -/
structure PoolStats where
  keys : Nat
  live : Nat
  idle : Int
  inUse : Int
  waiters : Nat
  created : Nat
  disposed : Nat
  evicted : Nat
  hits : Nat
  misses : Nat
  breaker : BreakerCounts
  deriving DecidableEq, Repr

/-- The events the pool emits. -/
inductive PoolEvent (κ : Type) where
  | acquire (key : κ) (refCount : Nat)
  | release (key : κ) (refCount : Nat)
  | create (key : κ)
  | dispose (key : κ)
  | evict (key : κ) (reason : EvictReason)
  | idleSweep (swept : Nat)
  | breakerOpen (key : Option κ)
  | breakerClose (key : Option κ)
  | breakerHalfOpen (key : Option κ)
  | drainStart
  | drainComplete
  | orphanResurrect (key : κ)
  | stats (stats : PoolStats)

/-- An event with the time it was emitted at. -/
structure Emitted (κ : Type) where
  event : PoolEvent κ
  timestamp : Int

/-- Where a call of `acquire` stands between two of its awaits. -/
inductive Phase where
  /-- `runExclusive` chained `obtain` behind the call the mutex tail belonged to. -/
  | queued (after : Option AcquireId)
  /-- `obtain` awaits `options.validate` on the idle live entry. -/
  | validating (live : EntryId)
  /-- `obtain` awaits `dispose` of the entry that failed validation. -/
  | discarding (live : EntryId)
  /-- `acquireSlot` awaits a parked waiter. -/
  | parked (waiter : WaiterId)
  /-- `acquireSlot` has returned and `obtain` is about to resume. -/
  | granted
  /-- `obtain` awaits `breaker.exec`. -/
  | creating (exec : ExecId)
  /-- `obtain` awaits `disposeOrphaned` of a resource created too late. -/
  | closing
  /-- `obtain` fulfilled, and the reactions to its promise are queued. -/
  | returned (entry : EntryId)
  /-- `obtain` rejected, and the reactions to its promise are queued. -/
  | threw (error : PoolError)
  /-- `acquire` fulfilled with a handle. -/
  | fulfilled (handle : HandleId)
  /-- `acquire` rejected. -/
  | rejected (error : PoolError)
  deriving DecidableEq, Repr

/-- A call of `acquire`. -/
structure Acquire (κ : Type) where
  key : κ
  /-- The mutex cell it was chained on, absent on the fast path. -/
  cell : Option CellId
  phase : Phase

/-- A handle: the entry it references, and whether `release` was called. -/
structure Handle where
  entry : EntryId
  released : Bool

/-- The outcome of a callback's promise. -/
inductive Outcome (τ : Type) where
  | pending
  | fulfilled (value : τ)
  | rejected

/-- Whether a promise has not settled. -/
def Outcome.isPending {τ : Type} : Outcome τ → Bool
  | .pending => true
  | .fulfilled _ | .rejected => false

/-- A call of `breaker.exec` made by an acquire. -/
structure Exec (κ τ : Type) where
  acquire : AcquireId
  key : κ
  outcome : Outcome τ

/-- A call of `options.factory` made by a breaker on behalf of an exec. -/
structure FactoryCall (τ : Type) where
  exec : ExecId
  outcome : Outcome τ

/-- One of the promises a `drain` waits for. -/
inductive Wait where
  /-- An already resolved promise. -/
  | ready
  /-- The promise returned by `dispose`. -/
  | disposing (entry : EntryId)
  /-- A promise made by `awaitDisposal`. -/
  | disposal (wait : DisposalWaitId)
  deriving DecidableEq, Repr

/-- A promise made by `awaitDisposal`. -/
structure DisposalWait where
  entry : EntryId
  resolved : Bool

/-- A call of `drain`: what it waits for, and whether its promise has fulfilled. -/
structure DrainCall where
  waits : List Wait
  fulfilled : Bool

end RefPool
