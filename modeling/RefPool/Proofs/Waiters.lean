import RefPool.Proofs.Core
import RefPool.Proofs.GateLaws

/-! The queue of waiters, the calls parked on them, and the closed flag agree in every run. -/

namespace RefPool

/-- The waiter that a parked call awaits. -/
def Phase.waiter : Phase → Option WaiterId
  | .parked w => some w
  | _ => none

namespace Gate

variable {gate : Gate} {w : WaiterId} {outcome : WaiterPromise}

/-- Settling a waiter builds none and queues none. -/
theorem settleWaiter_less (gate : Gate) (w : WaiterId) (outcome : WaiterPromise) :
    (gate.settleWaiter w outcome).waiters.length = gate.waiters.length ∧
      ∀ other ∈ (gate.settleWaiter w outcome).capacityWaiters, other ∈ gate.capacityWaiters := by
  -- Settling leaves the gate alone, or rewrites one promise and takes it off the queue.
  unfold settleWaiter
  split
  · exact ⟨rfl, fun _ => id⟩
  · split
    · exact ⟨rfl, fun _ => id⟩
    · exact ⟨List.length_modify .., fun _ => List.mem_of_mem_erase⟩

/-- Waking builds no waiter and queues none. -/
theorem wakeCapacityWaiter_less (sound : gate.Sound) :
    gate.wakeCapacityWaiter.waiters.length = gate.waiters.length ∧
      ∀ other ∈ gate.wakeCapacityWaiter.capacityWaiters, other ∈ gate.capacityWaiters := by
  -- Waking settles the first in the queue, if there is one.
  rcases sound.wake_eq with ⟨same, -⟩ | ⟨w, rest, -, same, -⟩
  · rw [same]
    exact ⟨rfl, fun _ => id⟩
  · rw [same]
    exact settleWaiter_less gate w .resolved

end Gate

/-- The queue, the calls parked on its waiters, and the closed flag agree. -/
structure Waiting {κ : Type} (gate : Gate) (acquires : List (Acquire κ)) (closed : Bool) :
    Prop where
  sound : gate.Sound
  /-- Some call is parked on each queued waiter. -/
  owned : ∀ w ∈ gate.capacityWaiters, ∃ acquire ∈ acquires, acquire.phase.waiter = some w
  /-- The waiter of a parked call has been built. -/
  known : ∀ acquire ∈ acquires, ∀ w, acquire.phase.waiter = some w → w < gate.waiters.length
  /-- A closed pool has nobody queued. -/
  shut : closed = true → gate.capacityWaiters = []

namespace Waiting

variable {κ : Type} {gate next : Gate} {acquires : List (Acquire κ)} {closed : Bool}
  {a : AcquireId} {acquire : Acquire κ} {phase : Phase}

/-- A new pool has no waiters and no calls. -/
theorem empty : Waiting Gate.empty ([] : List (Acquire κ)) closed where
  -- There is nobody to agree with.
  sound := Gate.sound_empty
  owned := by simp [Gate.empty]
  known := by simp
  shut := fun _ => rfl

/-- A gate that queues nobody new leaves the calls in agreement. -/
theorem of_gate (waiting : Waiting gate acquires closed) (sound : next.Sound)
    (less : next.waiters.length = gate.waiters.length ∧
      ∀ w ∈ next.capacityWaiters, w ∈ gate.capacityWaiters) : Waiting next acquires closed where
  -- Every clause reads the waiters built, or the ones that are queued.
  sound := sound
  owned := fun w queued => waiting.owned w (less.2 w queued)
  known := fun other inside w parked => less.1 ▸ waiting.known other inside w parked
  -- Nobody is queued who was not before.
  shut := by
    intro shut
    rw [List.eq_nil_iff_forall_not_mem]
    intro w queued
    simpa [waiting.shut shut] using less.2 w queued

/-- Settling a waiter leaves the calls in agreement. -/
theorem settle (waiting : Waiting gate acquires closed) (w : WaiterId) {outcome : WaiterPromise}
    (final : outcome ≠ .pending) : Waiting (gate.settleWaiter w outcome) acquires closed :=
  -- The calls know no other waiters than before, and fewer are queued.
  waiting.of_gate (waiting.sound.settle w final) (Gate.settleWaiter_less gate w outcome)

/-- Waking leaves the calls in agreement. -/
theorem wake (waiting : Waiting gate acquires closed) :
    Waiting gate.wakeCapacityWaiter acquires closed :=
  -- The calls know no other waiters than before, and fewer are queued.
  waiting.of_gate waiting.sound.wake (Gate.wakeCapacityWaiter_less waiting.sound)

/-- The reservations say nothing about the calls. -/
theorem setReserved (waiting : Waiting gate acquires closed) (reserved : Int) :
    Waiting { gate with reserved } acquires closed :=
  -- No waiter is touched.
  waiting.of_gate (waiting.sound.setReserved reserved) ⟨rfl, fun _ => id⟩

/-- Giving a reservation back leaves the calls in agreement. -/
theorem releaseReservation (waiting : Waiting gate acquires closed) :
    Waiting gate.releaseReservation acquires closed :=
  -- The number is set, and then somebody is woken.
  (waiting.setReserved (gate.reserved - 1)).wake

/-- Closing rejects every queued waiter. -/
theorem close (waiting : Waiting gate acquires closed) (error : PoolError) :
    Waiting (gate.rejectWaiters error) acquires true := by
  obtain ⟨sound, emptied⟩ := waiting.sound.reject error
  have length : (gate.rejectWaiters error).waiters.length = gate.waiters.length := by
    -- Each turn of the loop settles one waiter.
    have kept (queue : List WaiterId) (gate : Gate) : (queue.foldl (fun gate w =>
        { gate with capacityWaiters := gate.capacityWaiters.tail }.settleWaiter w
          (.rejected error)) gate).waiters.length = gate.waiters.length := by
      induction queue generalizing gate with
      | nil => rfl
      | cons w rest ih => rw [List.foldl_cons, ih, (Gate.settleWaiter_less _ w _).1]
    exact kept _ gate
  exact
    { sound
      owned := by simp [emptied]
      known := fun other inside w parked => length ▸ waiting.known other inside w parked
      shut := fun _ => emptied }

/-- Opening asks nothing of the queue. -/
theorem reopen (waiting : Waiting gate acquires closed) : Waiting gate acquires false :=
  -- The last clause is about closed pools.
  ⟨waiting.sound, waiting.owned, waiting.known, fun shut => by cases shut⟩

/-- A new call that is not parked leaves the others in agreement. -/
theorem push (waiting : Waiting gate acquires closed) (moving : acquire.phase.waiter = none) :
    Waiting gate (acquires ++ [acquire]) closed where
  -- The new call owns no waiter, and leaves the others what they own.
  sound := waiting.sound
  owned := by
    intro w queued
    obtain ⟨other, inside, parked⟩ := waiting.owned w queued
    exact ⟨other, List.mem_append_left _ inside, parked⟩
  known := by
    intro other inside w parked
    rcases List.mem_append.mp inside with before | new
    · exact waiting.known other before w parked
    · rw [List.mem_singleton.mp new, moving] at parked
      cases parked
  shut := waiting.shut

/-- The owner of a queued waiter is still there after a call that is not queued moved. -/
theorem owner_kept (waiting : Waiting gate acquires closed) (called : acquires[a]? = some acquire)
    (left : ∀ w, acquire.phase.waiter = some w → w ∉ gate.capacityWaiters) {w : WaiterId}
    (queued : w ∈ gate.capacityWaiters) :
    ∃ other ∈ acquires.modify a fun acquire => { acquire with phase },
      other.phase.waiter = some w := by
  -- The call that moved does not own the waiter, so its owner stayed where it was.
  obtain ⟨other, inside, parked⟩ := waiting.owned w queued
  obtain ⟨b, found⟩ := List.mem_iff_getElem?.mp inside
  refine ⟨other, List.mem_of_getElem? (i := b) ?_, parked⟩
  rw [Arena.getElem?_modify_other _ _ ?_, found]
  rintro rfl
  cases called.symm.trans found
  exact left w parked queued

/-- A call that is not queued moves to a phase that is not parked. -/
theorem move (waiting : Waiting gate acquires closed) (called : acquires[a]? = some acquire)
    (left : ∀ w, acquire.phase.waiter = some w → w ∉ gate.capacityWaiters)
    (moving : phase.waiter = none) :
    Waiting gate (acquires.modify a fun acquire => { acquire with phase }) closed where
  -- The waiters that the others own are as queued and as known as before.
  sound := waiting.sound
  owned := fun w queued => waiting.owner_kept called left queued
  known := by
    intro other inside w parked
    obtain ⟨b, read⟩ := List.mem_iff_getElem?.mp inside
    rcases Arena.getElem?_modify_cases read with ⟨-, old, -, rfl⟩ | ⟨-, before⟩
    · simp [moving] at parked
    · exact waiting.known other (List.mem_of_getElem? before) w parked
  shut := waiting.shut

/-- A call that is not queued parks on a new waiter. -/
theorem park (waiting : Waiting gate acquires false) (called : acquires[a]? = some acquire)
    (left : ∀ w, acquire.phase.waiter = some w → w ∉ gate.capacityWaiters)
    (timeout : Duration) (now : Int) :
    Waiting (gate.park timeout now)
      (acquires.modify a fun acquire => { acquire with phase := .parked gate.waiters.length })
      false where
  -- The new waiter comes last in the queue, and belongs to the call that parks.
  sound := waiting.sound.park timeout now
  owned := by
    intro w queued
    rcases List.mem_append.mp queued with before | new
    · exact waiting.owner_kept called left before
    · rw [List.mem_singleton.mp new]
      exact ⟨_, List.mem_of_getElem? (Arena.getElem?_modify_self _ called), rfl⟩
  known := by
    intro other inside w parked
    simp only [Gate.park, List.length_append, List.length_singleton]
    obtain ⟨b, read⟩ := List.mem_iff_getElem?.mp inside
    rcases Arena.getElem?_modify_cases read with ⟨-, old, -, rfl⟩ | ⟨-, before⟩
    · cases parked
      exact Nat.lt_succ_self _
    · exact Nat.lt_succ_of_lt (waiting.known other (List.mem_of_getElem? before) w parked)
  shut := fun shut => by cases shut

end Waiting

namespace State

variable {κ τ : Type} [DecidableEq κ] {options : PoolOptions} {s next : State κ τ}
  {a : AcquireId} {acquire : Acquire κ}

omit [DecidableEq κ] in
/-- A call that is not parked has no queued waiter. -/
theorem left_of_moving {gate : Gate} (moving : acquire.phase.waiter = none) (w : WaiterId)
    (parked : acquire.phase.waiter = some w) : w ∉ gate.capacityWaiters := by
  -- A parked call awaits a waiter, and this one does not.
  simp [moving] at parked

/-- A turn of the reservation loop keeps queue and calls in agreement. -/
theorem SlotEffect.waiting (effect : SlotEffect options s a next)
    (waiting : Waiting s.toGate s.acquires s.closed) (called : s.acquires[a]? = some acquire)
    (left : ∀ w, acquire.phase.waiter = some w → w ∉ s.capacityWaiters) :
    Waiting next.toGate next.acquires next.closed := by
  -- Only parking queues anybody, and an open pool may have somebody queued.
  cases effect with
  | unbounded | refused | exhausted => exact waiting.move called left rfl
  | reserved | evicted => exact (waiting.setReserved (s.reserved + 1)).move called left rfl
  | parked bounded opened =>
    show Waiting (s.toGate.park options.timeout s.now) _ s.closed
    rw [opened] at waiting ⊢
    exact waiting.park called left options.timeout s.now

/-- `obtain` from the orphan lookup on keeps queue and calls in agreement. -/
theorem MissEffect.waiting {key : κ} (effect : MissEffect options s a key next)
    (waiting : Waiting s.toGate s.acquires s.closed) (called : s.acquires[a]? = some acquire)
    (moving : acquire.phase.waiter = none) :
    Waiting next.toGate next.acquires next.closed := by
  -- The call itself waits for nobody on the way to the reservation loop.
  cases effect with
  | resurrected | refused => exact waiting.move called (left_of_moving moving) rfl
  | slot _ _ _ effect => exact effect.waiting waiting called (left_of_moving moving)

/-- Dropping a reference keeps queue and calls in agreement. -/
theorem ReleaseEffect.waiting {e : EntryId} (effect : ReleaseEffect s e next)
    (waiting : Waiting s.toGate s.acquires s.closed) :
    Waiting next.toGate next.acquires next.closed := by
  -- Freeing an entry wakes the first in the queue.
  cases effect with
  | ignored | dropped | retired => exact waiting
  | freed => exact waiting.wake

/-- A drain keeps queue and calls in agreement. -/
theorem waiting_drain (wf : s.toStore.WellFormed)
    (waiting : Waiting s.toGate s.acquires s.closed) :
    Waiting s.drain.toGate s.drain.acquires s.drain.closed := by
  -- A drain rejects the queue as it closes the pool, and touches no call.
  obtain ⟨gate, closed, -, -⟩ := drain_frame wf
  rw [gate, (sameCalls_drain wf).acquires, closed]
  exact waiting.close .poolClosed

/-- A sweep keeps queue and calls in agreement. -/
theorem waiting_sweep (wf : s.toStore.WellFormed)
    (waiting : Waiting s.toGate s.acquires s.closed) :
    Waiting (s.sweep options).toGate (s.sweep options).acquires (s.sweep options).closed := by
  -- Each turn wakes the first in the queue.
  exact (sweep_rule options
    (P := fun next => Waiting next.toGate next.acquires next.closed) wf
    (fun _ _ _ _ waiting _ _ _ => waiting.wake) (fun _ _ => id) waiting).2

/-- Every step keeps queue and calls in agreement. -/
theorem Effect.waiting {action : Action κ τ} (core : Core s)
    (effect : Effect options s action next) (waiting : Waiting s.toGate s.acquires s.closed) :
    Waiting next.toGate next.acquires next.closed := by
  -- The steps that settle waiters rewrite the gate, and those of a call move the call.
  cases effect with
  -- A hit adds a settled call.
  | shared key e =>
    have pushed : Waiting s.toGate
        (s.acquires ++ [⟨key, none, .fulfilled s.handles.length⟩]) s.closed := waiting.push rfl
    rw [← shared_acquires] at pushed
    exact pushed
  | queued key => exact waiting.push rfl
  | released h handle next found holding effect => exact effect.waiting waiting
  | releasedKey key e next bound effect => exact effect.waiting waiting
  | drain => exact waiting_drain core.store waiting
  | stop => exact waiting_drain (s := s.setClosed.stopTimers) core.store (waiting.close .poolClosed)
  | start => exact waiting.reopen
  | sweep => exact waiting_sweep core.store waiting
  | timeout w => exact waiting.settle w (by simp)
  | missed a acquire after next called phase turn absent effect =>
    exact effect.waiting waiting called (by rw [phase]; rfl)
  | discarded a acquire live next called phase effect =>
    exact effect.waiting waiting called (by rw [phase]; rfl)
  -- A parked call leaves its waiter only after that has been settled.
  | resumed a acquire w waiter next called phase found woken effect =>
    refine effect.waiting waiting called fun other parked => ?_
    cases (phase ▸ parked : (Phase.parked w).waiter = some other)
    simp [waiting.sound.queued w waiter found, woken]
  | abandoned a acquire w waiter error called phase found rejected =>
    refine waiting.move called (fun other parked => ?_) rfl
    cases (phase ▸ parked : (Phase.parked w).waiter = some other)
    simp [waiting.sound.queued w waiter found, rejected]
  -- The calls of the steps that follow are not parked.
  | validating a acquire after e entry called phase
  | returned a acquire after e entry called phase =>
    exact waiting.move called (left_of_moving (by rw [phase]; rfl)) rfl
  | breakerless a acquire answer called phase =>
    exact waiting.releaseReservation.move called (left_of_moving (by rw [phase]; rfl)) rfl
  | creating a acquire answer bank called phase =>
    exact waiting.move called (left_of_moving (by rw [phase]; rfl)) rfl
  | delivered a acquire e called phase | failed a acquire error called phase =>
    exact waiting.move called (left_of_moving (by rw [phase]; rfl)) rfl
  | unvalidated a acquire live called phase | passed a acquire live called phase
  | refuted a acquire live called phase | lateDisposeSettled a acquire called phase =>
    exact waiting.move called (left_of_moving (by rw [phase]; rfl)) rfl
  -- The call that awaits the exec is not parked either.
  | execRejected x exec found outstanding | execLate x exec resource found outstanding =>
    obtain ⟨acquire, called, -, phase⟩ := core.execs.awaited x exec found outstanding
    exact waiting.releaseReservation.move called (left_of_moving (by rw [phase]; rfl)) rfl
  | inserted x exec resource found outstanding =>
    obtain ⟨acquire, called, -, phase⟩ := core.execs.awaited x exec found outstanding
    exact (waiting.setReserved (s.reserved - 1)).move called
      (left_of_moving (by rw [phase]; rfl)) rfl
  | releasedAgain | releasedNone | gcKeyState | emitStats | clock | drained | factoryCalled
  | factorySettled | disposeSettled | breakerChanged => exact waiting

omit [DecidableEq κ] in
/-- A new pool has nobody waiting. -/
theorem waiting_init (options : PoolOptions) :
    Waiting (init options : State κ τ).toGate (init options : State κ τ).acquires
      (init options : State κ τ).closed :=
  -- The gate is empty, and there are no calls.
  Waiting.empty

end State

end RefPool
