import RefPool.Model.Pool

/-! `acquire` and `obtain`, cut at their awaits. -/

namespace RefPool.State

variable {κ τ : Type} [DecidableEq κ]

/-- Whether eviction must skip an entry: an acquire of its key is in flight. -/
def nodePending (s : State κ τ) (node : EntryId) : Bool :=
  match s.heap[node]? with
  | none => false
  -- The mark is looked up by the key of the node.
  | some entry => s.toKeyState.isPending entry.key

/-- Detach the least recently released idle entry whose key has no acquire in flight. -/
def takeLruIdle (s : State κ τ) : Option (EntryId × State κ τ) :=
  -- The walk starts at the least recently released entry.
  (s.idle.find? fun node => !s.nodePending node).map fun node =>
    (node, { s with toStore := s.toStore.unlink node })

/-- Park an acquire until a slot frees, or reject it. -/
def waitForCapacity (options : PoolOptions) (s : State κ τ) (a : AcquireId) : State κ τ :=
  if s.closed then s.setPhase a (.threw .poolClosed)
  else if options.maxWaiters.any fun limit : Int => limit ≤ s.capacityWaiters.length then
    s.setPhase a (.threw .poolExhausted)
  else
    -- The waiter goes to the end of the queue.
    { s with toGate := s.toGate.park options.timeout s.now }.setPhase a (.parked s.waiters.length)

/-- One turn of the reservation loop. -/
def acquireSlot (options : PoolOptions) (s : State κ τ) (a : AcquireId) : State κ τ :=
  -- Without a bound nothing is counted, not even the reservation.
  if options.max ≤ 0 then s.setPhase a .granted
  else if s.closed then s.setPhase a (.threw .poolClosed)
  else if s.entries.size + s.reserved < options.max then
    { s with toGate := s.toGate.reserve }.setPhase a .granted
  else
    match s.takeLruIdle with
    -- The disposal of the victim is not awaited: its slot is taken at once.
    | some (victim, s) =>
      let s := (s.countEviction victim .lru).dispose victim
      { s with toGate := s.toGate.reserve }.setPhase a .granted
    | none => s.waitForCapacity options a

/-- `obtain` from the orphan lookup on: resurrect, refuse, or go for a slot. -/
def obtainMissing (options : PoolOptions) (s : State κ τ) (a : AcquireId) (key : κ) :
    State κ τ :=
  match s.undisposed s.orphans key with
  | some (e, _) =>
    -- The orphan stays condemned, so its last release still disposes of it.
    let s := { s with toStore := s.toStore.resurrect key e }.hit
    (s.emit (.orphanResurrect key)).setPhase a (.returned e)
  | none =>
    -- A closed pool creates nothing.
    if s.closed then s.setPhase a (.threw .poolClosed)
    else s.miss.acquireSlot options a

/-- `obtain` up to its first await. -/
def obtain (options : PoolOptions) (s : State κ τ) (a : AcquireId) (key : κ) : State κ τ :=
  match s.undisposed s.entries key with
  | some (e, live) =>
    -- Only an idle entry is validated; a held one is shared as it is.
    if live.refCount = 0 ∧ options.validate then s.setPhase a (.validating e)
    else s.hit.setPhase a (.returned e)
  | none => s.obtainMissing options a key

/-- `obtain` after `options.validate` has settled. -/
def validated (s : State κ τ) (a : AcquireId) (live : EntryId) : Option Bool → State κ τ
  | none => s.setPhase a (.threw .validateFailed)
  | some true => s.hit.setPhase a (.returned live)
  -- The entry leaves whichever map holds it by now, and its disposal is awaited.
  | some false =>
    let s := { s with toStore := s.toStore.removeEntry live }
    (s.dispose live).setPhase a (.discarding live)

/-- `acquireSlot` after the waiter's promise has settled. -/
def resume (options : PoolOptions) (s : State κ τ) (a : AcquireId) : WaiterPromise → State κ τ
  | .pending => s
  -- A woken call has no claim on the slot: it starts the loop over.
  | .resolved => s.acquireSlot options a
  | .rejected error => s.setPhase a (.threw error)

/-- `obtain` once a slot is granted: resolve the breaker and call its `exec`. -/
def create (options : PoolOptions) (s : State κ τ) (a : AcquireId) (key : κ)
    (answer : BreakerMade) : State κ τ :=
  match s.toBreakerBank.resolveBreaker options.breaker key answer with
  -- The factory of the breaker threw, which ends the creation like a rejected `exec`.
  | none => s.releaseReservation.setPhase a (.threw .breakerFactoryFailed)
  | some bank =>
    let x := s.execs.length
    -- From here on only the settlement of `exec` moves the call.
    let s : State κ τ :=
      { s with
        toBreakerBank := bank
        execs := s.execs ++ [{ acquire := a, key, outcome := .pending }] }
    s.setPhase a (.creating x)

/-- Insert the entry of a fresh resource. -/
def insertEntry (s : State κ τ) (key : κ) (resource : τ) : State κ τ :=
  -- The reservation turns into the entry, so the slots in use stay the same.
  let s :=
    { s with
      toStore := s.toStore.insert key resource s.now
      toGate := s.toGate.unreserve
      counters := { s.counters with created := s.counters.created + 1 } }
  s.emit (.create key)

/-- `obtain` after `breaker.exec` has settled. -/
def created (s : State κ τ) (a : AcquireId) (key : κ) : Option τ → State κ τ
  | none => s.releaseReservation.setPhase a (.threw .execFailed)
  | some resource =>
    -- The pool was closed while the factory ran.
    if s.closed then
      let s := s.releaseReservation
      { s with disposeCalls := s.disposeCalls ++ [(resource, key)] }.setPhase a .closing
    else (s.insertEntry key resource).setPhase a (.returned s.heap.length)

/-- The end of `acquire`: its `finally` drops the pending mark. -/
def conclude (s : State κ τ) (a : AcquireId) (key : κ) (phase : Phase) : State κ τ :=
  -- The mark is dropped however the call ended.
  { s with toKeyState := s.toKeyState.decPending key }.setPhase a phase

/-- The reactions to the settled promise of `obtain`: `settled`, then the end of `acquire`. -/
def deliver (s : State κ τ) (a : AcquireId) (acquire : Acquire κ)
    (outcome : Except PoolError EntryId) : State κ τ :=
  -- A call on the fast path never was on a mutex.
  let s :=
    { s with
      toKeyState := match acquire.cell with
        | none => s.toKeyState
        | some c => s.toKeyState.settled acquire.key c s.now }
  match outcome with
  | .error error => s.conclude a acquire.key (.rejected error)
  | .ok e => (s.checkout e).conclude a acquire.key (.fulfilled s.handles.length)

/-- A new call of `acquire`, up to its first await. -/
def acquire (s : State κ τ) (key : κ) : State κ τ :=
  let a := s.acquires.length
  -- The mark is set before anything can suspend.
  let s := { s with toKeyState := s.toKeyState.incPending key }
  match (s.undisposed s.entries key).filter fun fast => 0 < fast.2.refCount with
  | some (e, _) =>
    -- The fast path: a shared live entry needs neither a slot nor the mutex.
    let s : State κ τ :=
      { s with acquires := s.acquires ++ [{ key, cell := none, phase := .queued none }] }
    (s.hit.checkout e).conclude a key (.fulfilled s.handles.length)
  | none =>
    -- The call runs when the present tail settles, either way.
    let after := s.toKeyState.tailOf key
    let s := { s with toKeyState := s.toKeyState.runExclusive key a s.now }
    { s with
      acquires := s.acquires ++
        [{ key, cell := s.mutexes.get? key, phase := .queued after }] }

end RefPool.State
