import RefPool.Model.Types

/-! The capacity gate: reservations and the queue of parked acquires. -/

namespace RefPool

/-- Capacity accounting. -/
structure Gate where
  /-- Creations that passed the gate and have not inserted their entry yet. -/
  reserved : Int
  /-- Every `CapacityWaiter` object built so far, at its address. -/
  waiters : List CapacityWaiter
  /-- The parked waiters, oldest first. -/
  capacityWaiters : List WaiterId

namespace Gate

/-- The gate of a new pool. -/
def empty : Gate := ⟨0, [], []⟩

/-- Count one more creation in progress. -/
def reserve (gate : Gate) : Gate := { gate with reserved := gate.reserved + 1 }

/-- Count one creation less. -/
def unreserve (gate : Gate) : Gate := { gate with reserved := gate.reserved - 1 }

/-- Settle a waiter's promise once, clear its timer and take it off the queue. -/
def settleWaiter (gate : Gate) (w : WaiterId) (outcome : WaiterPromise) : Gate :=
  match gate.waiters[w]? with
  | none => gate
  | some waiter =>
    -- A promise settles once, so a late timer changes nothing.
    if waiter.settled then gate
    else
      { gate with
        waiters := gate.waiters.modify w fun _ =>
          { promise := outcome, timer := none, settled := true }
        capacityWaiters := gate.capacityWaiters.erase w }

/-- Wake the oldest waiter so that it can retry its reservation. -/
def wakeCapacityWaiter (gate : Gate) : Gate :=
  match gate.capacityWaiters with
  | [] => gate
  -- The waiter leaves the queue before its promise resolves.
  | w :: rest => { gate with capacityWaiters := rest }.settleWaiter w .resolved

/-- Release a reservation that never became an entry. -/
def releaseReservation (gate : Gate) : Gate :=
  -- The slot is free before the oldest waiter is woken for it.
  gate.unreserve.wakeCapacityWaiter

/-- Reject the parked waiters one after the other, oldest first. -/
def rejectWaiters (gate : Gate) (error : PoolError) : Gate :=
  -- Every turn shifts the head, which the settling then no longer finds queued.
  gate.capacityWaiters.foldl (fun gate w =>
    { gate with capacityWaiters := gate.capacityWaiters.tail }.settleWaiter w (.rejected error))
    gate

/-- Park one more acquire, with a timer when the timeout is finite and not negative. -/
def park (gate : Gate) (timeout : Duration) (now : Int) : Gate :=
  -- A timeout that is infinite or negative arms no timer.
  let timer := match timeout with
    | .infinity => none
    | .ms count => if 0 ≤ count then some (now + count) else none
  { gate with
    waiters := gate.waiters ++ [{ promise := .pending, timer, settled := false }]
    capacityWaiters := gate.capacityWaiters ++ [gate.waiters.length] }

end Gate

end RefPool
