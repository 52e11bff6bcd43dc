import RefPool.Model.Obtain

/-! `sweep`, `drain`, `stop`, `start` and the periodic maintenance. -/

namespace RefPool.State

variable {κ τ : Type} [DecidableEq κ]

/-- The walk of `sweep` over the idle list: stop at the first entry newer than the cutoff. -/
def sweepFrom (cutoff : Int) : List EntryId → State κ τ → Nat → State κ τ × Nat
  | [], s, swept => (s, swept)
  | node :: rest, s, swept =>
    match s.heap[node]? with
    | none => sweepFrom cutoff rest s swept
    | some entry =>
      -- The list is in release order, so the rest is newer still.
      if cutoff < entry.lastReleasedAt then (s, swept)
      else if s.nodePending node then sweepFrom cutoff rest s swept
      else
        -- Each eviction frees a slot for one waiter.
        let s := { s with toStore := s.toStore.unlink node }
        let s := ((s.countEviction node .ttl).dispose node).wakeCapacityWaiter
        sweepFrom cutoff rest s (swept + 1)

/-- Evict the idle entries untouched for the time to live. -/
def sweep (options : PoolOptions) (s : State κ τ) : State κ τ :=
  match options.idleTtlMs with
  | none => s
  | some ttl =>
    if ttl = 0 then s
    else
      let (s, swept) := sweepFrom (s.now - ttl) s.idle s 0
      -- A sweep that found nothing is silent.
      if 0 < swept then s.emit (.idleSweep swept) else s

/-- Mark the pool closed and reject every parked waiter. -/
def setClosed (s : State κ τ) : State κ τ :=
  { s with closed := true, toGate := s.toGate.rejectWaiters .poolClosed }

/-- Disarm the intervals. -/
def stopTimers (s : State κ τ) : State κ τ :=
  { s with started := false, sweepTimer := false, mutexTimer := false, statsTimer := false }

/-- One turn of `drain` over the live entries: dispose an idle one, orphan a held one. -/
def drainEntry (s : State κ τ) (e : EntryId) : State κ τ × List Wait :=
  match s.heap[e]? with
  | none => (s, [])
  | some entry =>
    -- The key is gone from the live map in either case.
    let s := { s with toStore := s.toStore.deleteKey e }
    if entry.refCount = 0 then
      ({ s with toStore := s.toStore.idleRemove e }.dispose e, [.disposing e])
    else
      -- The holders keep the resource, and the last of them disposes of it.
      let s := { s with toStore := s.toStore.orphan entry.key e }
      let (s, wait) := (s.countEviction e .drain).awaitDisposal e entry
      (s, [wait])

/-- One turn of `drain` over the orphans: condemn it and wait for its disposal. -/
def drainOrphan (s : State κ τ) (e : EntryId) : State κ τ × List Wait :=
  match s.heap[e]? with
  | none => (s, [])
  | some entry =>
    -- An orphan of this or of an earlier drain is condemned all the same.
    let s := { s with toStore := s.toStore.update e fun entry => { entry with condemned := true } }
    let (s, wait) := s.awaitDisposal e entry
    (s, [wait])

/-- Run one of `drain`'s loops over a snapshot, collecting what it waits for. -/
def drainLoop (turn : State κ τ → EntryId → State κ τ × List Wait) :
    List EntryId → State κ τ → List Wait → State κ τ × List Wait
  | [], s, waits => (s, waits)
  | e :: rest, s, waits =>
    -- The snapshot was taken before the loop, so turns do not affect what is visited.
    let (s, more) := turn s e
    drainLoop turn rest s (waits ++ more)

/-- `drain` up to its await. -/
def drain (s : State κ τ) : State κ τ :=
  -- Closing comes first, so that nothing new can start.
  let s := s.setClosed.stopTimers.emit .drainStart
  let (s, waits) := drainLoop drainEntry s.entries.values s []
  let (s, waits) := drainLoop drainOrphan s.orphans.values s waits
  -- The list is reset as a whole, whatever it holds by then.
  { s with
    toStore := s.toStore.resetIdle
    drains := s.drains ++ [{ waits, fulfilled := false }] }

/-- `stop` up to its await: close, disarm the intervals, and drain. -/
def stop (s : State κ τ) : State κ τ := s.setClosed.stopTimers.drain

/-- Whether an interval option arms its timer. -/
def armed (interval : Option Int) : Bool := interval.any fun ms => 0 < ms

/-- Open the pool and arm the intervals unless they are armed. -/
def start (options : PoolOptions) (s : State κ τ) : State κ τ :=
  let s := { s with closed := false }
  -- A pool that was drained has been disarmed, so it is armed again here.
  if s.started then s
  else
    { s with
      started := true
      sweepTimer := armed options.idleTtlMs
      mutexTimer := armed options.mutexGcMs
      statsTimer := armed options.statsIntervalMs }

/-- Collect unused mutex cells, and prune the breakers of absent keys. -/
def gcKeyState (options : PoolOptions) (s : State κ τ) : State κ τ :=
  let s := match options.mutexGcMs with
    | none => s
    | some age =>
      if age = 0 then s
      else { s with toKeyState := s.toKeyState.gcMutexes (s.now - age) }
  -- The pruning does not depend on the cadence option.
  s.breakers.keys.foldl (fun s key => s.dropBreaker options key) s

/-- Emit a `stats` event. -/
def emitStats (s : State κ τ) : State κ τ := s.emit (.stats s.getStats)

/-- A breaker changed state: a subscribed pool counts and announces it. -/
def breakerChanged (s : State κ τ) (b : BreakerId) (breaker : Breaker κ) (state : BreakerState) :
    State κ τ :=
  let s := { s with objects := s.objects.modify b fun breaker => { breaker with state } }
  -- A breaker that was dropped changes state unheard.
  if breaker.subscribed then
    let s :=
      { s with
        counters := { s.counters with breaker := s.counters.breaker.bump state } }
    match state with
    | .open => s.emit (.breakerOpen breaker.key)
    | .closed => s.emit (.breakerClose breaker.key)
    | .halfOpen => s.emit (.breakerHalfOpen breaker.key)
  else s

/-- Whether one of the promises a drain waits for has resolved. -/
def waitResolved (s : State κ τ) : Wait → Bool
  | .ready => true
  -- The promise of a disposal resolves when the disposal has ended.
  | .disposing e => (s.heap[e]?).any Entry.disposed
  | .disposal i => (s.disposalWaits[i]?).any DisposalWait.resolved

/-- `drain` after everything it waits for has resolved. -/
def drained (s : State κ τ) (d : DrainId) : State κ τ :=
  { s with drains := s.drains.modify d fun call => { call with fulfilled := true } }.emit
    .drainComplete

end RefPool.State
