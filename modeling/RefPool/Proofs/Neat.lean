import RefPool.Proofs.Connections
import RefPool.Proofs.References

/-! A pool that is not drained and is used through handles has what is held alive. -/

namespace RefPool

namespace Gate

variable {gate : Gate} {w : WaiterId} {outcome : WaiterPromise}

/-- Whoever is turned away from the queue has timed out. -/
def Timely (gate : Gate) : Prop :=
  ∀ waiter ∈ gate.waiters, ∀ error, waiter.promise = .rejected error → error = .acquireTimeout

/-- Settling a waiter turns nobody away for another reason than the outcome says. -/
theorem Timely.settle (timely : gate.Timely)
    (due : ∀ error, outcome = .rejected error → error = .acquireTimeout) :
    (gate.settleWaiter w outcome).Timely := by
  unfold settleWaiter
  -- A waiter that has settled already keeps its promise.
  split
  · exact timely
  · split
    · exact timely
    · intro waiter inside error rejected
      obtain ⟨i, read⟩ := List.mem_iff_getElem?.mp inside
      rcases Arena.getElem?_modify_cases read with ⟨-, old, -, rfl⟩ | ⟨-, before⟩
      · exact due error rejected
      · exact timely waiter (List.mem_of_getElem? before) error rejected

/-- Waking a waiter turns nobody away. -/
theorem Timely.wake (timely : gate.Timely) : gate.wakeCapacityWaiter.Timely := by
  -- The first waiter, if there is one, is granted what it waits for.
  unfold wakeCapacityWaiter
  split
  · exact timely
  · rename_i w rest queue
    have popped : Timely { gate with capacityWaiters := rest } := timely
    exact popped.settle (by simp)

/-- Giving a reservation back turns nobody away. -/
theorem Timely.release (timely : gate.Timely) : gate.releaseReservation.Timely := by
  -- A reservation less, and then a wakeup.
  have unreserved : gate.unreserve.Timely := timely
  exact unreserved.wake

/-- A waiter that parks has not been turned away. -/
theorem Timely.park (timely : gate.Timely) (timeout : Duration) (now : Int) :
    (gate.park timeout now).Timely := by
  -- The new waiter is pending.
  intro waiter inside error rejected
  rcases List.mem_append.mp inside with before | new
  · exact timely waiter before error rejected
  · rw [List.mem_singleton.mp new] at rejected
    cases rejected

end Gate

namespace State

variable {κ τ : Type} [DecidableEq κ] {options : PoolOptions} {s next : State κ τ}
  {a : AcquireId} {acquire : Acquire κ}

/-- A turn of the reservation loop turns nobody away. -/
theorem SlotEffect.timely (effect : SlotEffect options s a next) (timely : s.toGate.Timely) :
    next.toGate.Timely := by
  -- A turn rejects no waiter, though it may refuse its own call.
  cases effect with
  | parked => exact timely.park options.timeout s.now
  | unbounded | refused | reserved | evicted | exhausted => exact timely

/-- `obtain` from the orphan lookup on turns nobody away. -/
theorem MissEffect.timely {key : κ} (effect : MissEffect options s a key next)
    (timely : s.toGate.Timely) : next.toGate.Timely := by
  -- Only the reservation loop remains to be looked at.
  cases effect with
  | resurrected | refused => exact timely
  | slot _ _ _ effect => exact effect.timely timely

/-- Dropping a reference turns nobody away. -/
theorem ReleaseEffect.timely {e : EntryId} (effect : ReleaseEffect s e next)
    (timely : s.toGate.Timely) : next.toGate.Timely := by
  -- Only an entry that becomes idle wakes somebody.
  cases effect with
  | freed => exact timely.wake
  | ignored | dropped | retired => exact timely

/-- Without a drain whoever is turned away from the queue has timed out. -/
theorem Effect.timely {action : Action κ τ} (effect : Effect options s action next)
    (core : Core s) (open_ : action ≠ .drain ∧ action ≠ .stop) (timely : s.toGate.Timely) :
    next.toGate.Timely := by
  -- Only a timer rejects a waiter while nobody closes the pool.
  cases effect with
  | drain => exact absurd rfl open_.1
  | stop => exact absurd rfl open_.2
  | released h handle next found holding effect => exact effect.timely timely
  | releasedKey key e next bound effect => exact effect.timely timely
  | sweep =>
    exact (sweep_rule options (P := fun next => next.toGate.Timely) core.store
      (fun _ _ _ _ timely _ _ _ => timely.wake) (fun _ _ => id) timely).2
  | timeout => exact timely.settle (by simp)
  | missed a acquire after next called phase turn absent effect => exact effect.timely timely
  | discarded a acquire live next called phase effect => exact effect.timely timely
  | resumed a acquire w waiter next called phase found woken effect => exact effect.timely timely
  | breakerless | execRejected | execLate => exact timely.release
  | shared | queued | releasedAgain | releasedNone | start | gcKeyState | emitStats | clock
  | validating | returned | abandoned | creating | delivered | failed | drained | unvalidated
  | passed | refuted | factoryCalled | factorySettled | inserted | disposeSettled
  | lateDisposeSettled | breakerChanged => exact timely

/-- Before the first drain the handles out on an entry are its references for good. -/
theorem Effect.countedAll {action : Action κ τ} (effect : Effect options s action next)
    (core : Core s) (undrained : Undrained s.heap s.acquires) (handlesOnly : s.HandlesOnly action)
    (counted : Compared (· = ·) true s.heap s.handles (outstanding s.handles)) :
    Compared (· = ·) true next.heap next.handles (outstanding next.handles) := by
  cases effect.references core with
  | kept _ _ store handles =>
    rw [handles]
    exact counted.kept store
  | issued _ _ e entry found heap handles =>
    rw [heap, handles]
    exact counted.checkout comparison_eq found (outstanding_issue s.handles e)
  | released h handle _ found holding effect =>
    rw [effect.sameCalls.handles]
    refine .release effect (counted.mark h) comparison_eq (outstanding_release found holding)
      fun entry present _ disposed => ?_
    -- Nobody holds an entry by the time its disposal begins.
    exact (undrained.entries entry (List.mem_of_getElem? present)).unheld
      ((core.store.sound _ entry present).ended disposed)
  | releasedKey => exact absurd handlesOnly (by simp [HandlesOnly])
  | inserted _ _ key resource now heap handles =>
    rw [heap, handles]
    refine counted.insert comparison_eq ?_ key resource now
    rw [outstanding, List.countP_eq_zero]
    intro handle issued
    have older := Nat.ne_of_lt (counted.issued handle issued)
    simp [older]

/-- Before the first drain an entry whose disposal has not begun is live. -/
theorem live_of_undrained (wf : s.toStore.WellFormed) (undrained : Undrained s.heap s.acquires)
    (accurate : s.toStore.Exact) {e : EntryId} {entry : Entry κ τ}
    (found : s.heap[e]? = some entry) (fresh : entry.disposing = false) :
    s.entries.get? entry.key = some e := by
  -- Before the first drain nothing is an orphan, so the entry is bound as a live one.
  rcases (accurate.each e entry found).kept fresh with bound | bound
  · exact bound
  · rw [unorphaned_of_undrained wf undrained] at bound
    cases bound

/-- Before the first drain what a call returned is live under its key. -/
theorem returned_of_undrained (core : Core s) (undrained : Undrained s.heap s.acquires)
    (accurate : s.toStore.Exact) (called : s.acquires[a]? = some acquire)
    {e : EntryId} (claimed : acquire.phase.claimed = some e) :
    ∃ entry, s.heap[e]? = some entry ∧ entry.key = acquire.key ∧
      s.entries.get? entry.key = some e := by
  obtain ⟨entry, found, fresh⟩ := undrained.ready a acquire e called claimed
  -- What is claimed has the key of the call, and its disposal has not begun.
  obtain ⟨record, found', key⟩ := entry_of_claimed claims_claimed core called claimed
  cases found.symm.trans found'
  exact ⟨entry, found, key, live_of_undrained core.store undrained accurate found fresh⟩

/-- What holds of a pool that was never drained and that is used through handles. -/
structure Neat (options : PoolOptions) (s : State κ τ) : Prop where
  core : Core s
  opened : s.closed = false
  undrained : Undrained s.heap s.acquires
  accurate : s.toStore.Exact
  /-- Every entry, disposed of or not, is held by the handles out on it. -/
  counted : Compared (· = ·) true s.heap s.handles (outstanding s.handles)
  booked : 0 < options.max → s.Booked
  timely : s.toGate.Timely

/-- A new pool is neat. -/
theorem neat_init (options : PoolOptions) : Neat options (init options : State κ τ) where
  -- Nothing is live, waiting or drained yet.
  core := core_init options
  opened := rfl
  undrained := undrained_init options
  accurate := Store.exact_empty
  counted := ⟨by simp [init], by simp [init, Store.empty]⟩
  booked := fun _ => booked_init options
  timely := by simp [Gate.Timely, init, Gate.empty]

/-- A pool stays neat as long as nothing drains it or releases by key. -/
theorem Neat.step {action : Action κ τ} (neat : Neat options s)
    (open_ : action ≠ .drain ∧ action ≠ .stop) (handles : s.HandlesOnly action)
    (stepped : s.step options action = some next) : Neat options next := by
  have effect := step_effect stepped
  -- Each part of the invariant has a lemma of its own.
  exact ⟨core_step neat.core stepped, effect.opened neat.core.store open_ neat.opened,
    effect.undrained neat.core neat.undrained open_,
    effect.exact neat.core (noRevival_of_undrained neat.undrained action) neat.accurate,
    effect.countedAll neat.core neat.undrained handles neat.counted,
    fun bounded => effect.booked neat.core bounded (neat.booked bounded),
    effect.timely neat.core open_ neat.timely⟩

/-- No key of a neat pool is orphaned. -/
theorem Neat.orphans_eq_none (neat : Neat options s) (key : κ) : s.orphans.get? key = none :=
  -- Before the first drain nothing is orphaned.
  unorphaned_of_undrained neat.core.store neat.undrained key

/-- An entry of a neat pool whose disposal has not begun is live. -/
theorem Neat.entries_of_undisposed (neat : Neat options s) {e : EntryId} {entry : Entry κ τ}
    (found : s.heap[e]? = some entry) (fresh : entry.disposing = false) :
    s.entries.get? entry.key = some e :=
  -- Before the first drain such an entry is bound as a live one.
  live_of_undrained neat.core.store neat.undrained neat.accurate found fresh

/-- What a call of a neat pool returned is live under its key. -/
theorem Neat.entries_of_claimed (neat : Neat options s) (called : s.acquires[a]? = some acquire)
    {e : EntryId} (claimed : acquire.phase.claimed = some e) :
    ∃ entry, s.heap[e]? = some entry ∧ entry.key = acquire.key ∧
      s.entries.get? entry.key = some e :=
  -- Before the first drain what a call has claimed stays live.
  returned_of_undrained neat.core neat.undrained neat.accurate called claimed

/-- The entry of a handle that is out is live and held. -/
theorem Neat.entries_of_handle (neat : Neat options s) {h : HandleId} {handle : Handle}
    (issued : s.handles[h]? = some handle) (out : handle.released = false) :
    ∃ entry, s.heap[handle.entry]? = some entry ∧ 0 < entry.refCount ∧
      s.entries.get? entry.key = some handle.entry := by
  -- A handle that is out is counted on its entry, which then cannot be disposing.
  have inside := neat.counted.issued handle (List.mem_of_getElem? issued)
  obtain ⟨entry, found⟩ : ∃ entry, s.heap[handle.entry]? = some entry :=
    ⟨_, List.getElem?_eq_getElem inside⟩
  have counted : 0 < outstanding s.handles handle.entry :=
    Arena.countP_pos_of_getElem? issued (by simp [out])
  have held : 0 < entry.refCount := by
    rw [neat.counted.counts _ entry found (.inl rfl)]
    exact counted
  refine ⟨entry, found, held,
    neat.entries_of_undisposed found (Bool.eq_false_iff.mpr fun begun => ?_)⟩
  have unheld := (neat.undrained.entries entry (List.mem_of_getElem? found)).unheld begun
  omega

end State

end RefPool
