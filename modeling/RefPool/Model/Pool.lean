import RefPool.Model.Store
import RefPool.Model.Gate
import RefPool.Model.Keys

/-! The state of a pool and of the calls in flight on it, with the steps its methods share. -/

namespace RefPool

/-- A pool together with the promises, handles and callbacks outstanding around it. -/
structure State (κ τ : Type) extends Store κ τ, Gate, KeyState κ, BreakerBank κ where
  started : Bool
  closed : Bool
  /-- Whether the interval that runs `sweep` is armed. -/
  sweepTimer : Bool
  /-- Whether the interval that runs `gcKeyState` is armed. -/
  mutexTimer : Bool
  /-- Whether the interval that runs `emitStats` is armed. -/
  statsTimer : Bool
  counters : Counters
  /-- Everything emitted so far. -/
  events : List (Emitted κ)
  /-- What `Date.now` answers. -/
  now : Int
  acquires : List (Acquire κ)
  handles : List Handle
  execs : List (Exec κ τ)
  factoryCalls : List (FactoryCall τ)
  /-- The calls of `options.dispose` so far, with their arguments. -/
  disposeCalls : List (τ × κ)
  drains : List DrainCall
  disposalWaits : List DisposalWait

namespace State

variable {κ τ : Type} [DecidableEq κ]

/-- A pool as its constructor leaves it. -/
def init (options : PoolOptions) : State κ τ :=
  -- Only a shared breaker is there from the start.
  { toStore := .empty
    toGate := .empty
    toKeyState := .empty
    toBreakerBank := .empty options.breaker
    started := false, closed := false
    sweepTimer := false, mutexTimer := false, statsTimer := false
    counters := {}, events := [], now := 0
    acquires := [], handles := [], execs := [], factoryCalls := [], disposeCalls := []
    drains := [], disposalWaits := [] }

/-- Emit an event at the current time. -/
def emit (s : State κ τ) (event : PoolEvent κ) : State κ τ :=
  { s with events := s.events ++ [⟨event, s.now⟩] }

/-- Emit an event about an entry. -/
def emitFor (s : State κ τ) (e : EntryId) (event : Entry κ τ → PoolEvent κ) : State κ τ :=
  -- The event reads the entry as it is by then.
  { s with events := s.events ++ (s.heap[e]?.map fun entry => ⟨event entry, s.now⟩).toList }

/-- Move a call of `acquire` to its next phase. -/
def setPhase (s : State κ τ) (a : AcquireId) (phase : Phase) : State κ τ :=
  { s with acquires := s.acquires.modify a fun acquire => { acquire with phase } }

/-- Count one cache hit. -/
def hit (s : State κ τ) : State κ τ :=
  { s with counters := { s.counters with hits := s.counters.hits + 1 } }

/-- Count one miss. -/
def miss (s : State κ τ) : State κ τ :=
  { s with counters := { s.counters with misses := s.counters.misses + 1 } }

/-- Count one eviction and announce it. -/
def countEviction (s : State κ τ) (e : EntryId) (reason : EvictReason) : State κ τ :=
  { s with counters := { s.counters with evicted := s.counters.evicted + 1 } }.emitFor e
    fun entry => .evict entry.key reason

/-- A snapshot of the maintained counters. -/
def getStats (s : State κ τ) : PoolStats where
  keys := s.entries.size
  live := s.entries.size + s.orphans.size
  idle := s.idleCount
  -- The idle count is maintained, so no scan of the entries is needed.
  inUse := s.entries.size - s.idleCount + s.orphans.size
  waiters := s.capacityWaiters.length
  created := s.counters.created
  disposed := s.counters.disposed
  evicted := s.counters.evicted
  hits := s.counters.hits
  misses := s.counters.misses
  breaker := s.counters.breaker

/-- Start the disposal of an entry: `options.dispose` is called unless it was called before. -/
def dispose (s : State κ τ) (e : EntryId) : State κ τ :=
  -- `options.dispose` is called synchronously, when the `disposing` promise is made.
  { s with
    toStore := s.toStore.beginDispose e
    disposeCalls := s.disposeCalls ++
      (s.toStore.toDispose e).toList.map fun entry => (entry.resource, entry.key) }

/-- Drop the breaker of a key without live, orphaned or pending presence. -/
def dropBreaker (options : PoolOptions) (s : State κ τ) (key : κ) : State κ τ :=
  -- A pending acquire of the key counts as presence.
  { s with
    toBreakerBank := s.toBreakerBank.dropBreaker options.breaker key
      (s.entries.has key || s.orphans.has key || s.toKeyState.isPending key) }

/-- The `finally` of an entry's disposal, once its `options.dispose` call has settled. -/
def finishDispose (options : PoolOptions) (s : State κ τ) (e : EntryId) (entry : Entry κ τ) :
    State κ τ :=
  let s :=
    { s with
      toStore := s.toStore.update e fun entry => { entry with disposed := true }
      counters := { s.counters with disposed := s.counters.disposed + 1 } }
  -- The breaker goes before the waiters learn of the disposal.
  let s := s.dropBreaker options entry.key
  let s :=
    { s with
      toStore := s.toStore.update e fun entry => { entry with disposeWaiters := [] }
      disposalWaits := entry.disposeWaiters.foldl
        (fun waits i => waits.modify i fun wait => { wait with resolved := true })
        s.disposalWaits }
  -- The event comes last, so that a listener cannot hold up a drain.
  s.emit (.dispose entry.key)

/-- Make a promise that the end of an entry's disposal resolves. -/
def addDisposeWaiter (s : State κ τ) (e : EntryId) : State κ τ :=
  { s with
    toStore := s.toStore.update e fun entry =>
      { entry with disposeWaiters := entry.disposeWaiters ++ [s.disposalWaits.length] }
    disposalWaits := s.disposalWaits ++ [{ entry := e, resolved := false }] }

/-- A promise that resolves when the entry is disposed. -/
def awaitDisposal (s : State κ τ) (e : EntryId) (entry : Entry κ τ) : State κ τ × Wait :=
  -- A disposed entry yields a promise that is resolved already.
  if entry.disposed then (s, .ready)
  else (s.addDisposeWaiter e, .disposal s.disposalWaits.length)

/-- Issue a handle on an entry. -/
def checkout (s : State κ τ) (e : EntryId) : State κ τ :=
  let s := { s with toStore := s.toStore.checkout e }
  -- The event carries the count that the new reference is part of.
  let s := s.emitFor e fun entry => .acquire entry.key entry.refCount
  { s with handles := s.handles ++ [{ entry := e, released := false }] }

/-- Wake the oldest parked acquire. -/
def wakeCapacityWaiter (s : State κ τ) : State κ τ :=
  { s with toGate := s.toGate.wakeCapacityWaiter }

/-- Give a reservation back and wake the oldest parked acquire. -/
def releaseReservation (s : State κ τ) : State κ τ :=
  { s with toGate := s.toGate.releaseReservation }

/-- Count one reference of an entry less and announce it. -/
def dropReference (s : State κ τ) (e : EntryId) : State κ τ :=
  { s with
    toStore := s.toStore.update e fun entry =>
      { entry with refCount := entry.refCount - 1 } }.emitFor e
    fun entry => .release entry.key entry.refCount

/-- Remember when the last reference of an entry was released. -/
def stampReleased (s : State κ τ) (e : EntryId) : State κ τ :=
  { s with toStore := s.toStore.update e fun entry => { entry with lastReleasedAt := s.now } }

/-- The last reference of an entry is gone: stamp it, then retire it or make it evictable. -/
def releaseLast (s : State κ τ) (e : EntryId) (entry : Entry κ τ) : State κ τ :=
  let s := s.stampReleased e
  -- Membership in the orphans is by identity, condemnation by flag.
  if entry.condemned ∨ s.orphans.get? entry.key = some e then
    { s with toStore := s.toStore.removeEntry e }.dispose e
  else
    { s with toStore := s.toStore.idleAppend e }.wakeCapacityWaiter

/-- Drop one reference of an entry. -/
def releaseEntry (s : State κ τ) (e : EntryId) : State κ τ :=
  match s.heap[e]? with
  | none => s
  | some entry =>
    -- A second release of a spent entry emits nothing and stamps nothing.
    if entry.disposed then s
    else if entry.refCount = 0 then s
    else if entry.refCount - 1 ≠ 0 then s.dropReference e
    else (s.dropReference e).releaseLast e entry

/-- The release of a handle: only its first call drops the reference. -/
def releaseHandle (s : State κ τ) (h : HandleId) (handle : Handle) : State κ τ :=
  -- The flag is the handle's own, so no other holder is affected.
  if handle.released then s
  else
    let s := { s with handles := s.handles.modify h fun handle => { handle with released := true } }
    s.releaseEntry handle.entry

/-- Drop one reference of the live or orphaned entry of a key. -/
def release (s : State κ τ) (key : κ) : State κ τ :=
  -- Whose reference is dropped cannot be told from a key.
  match (s.entries.get? key).or (s.orphans.get? key) with
  | none => s
  | some e => s.releaseEntry e

end State

end RefPool
