import RefPool.Model.Gate
import RefPool.Lib.Arena

/-! What each gate operation does to the reservations, the waiters and their queue. -/

namespace RefPool.Gate

variable (gate : Gate)

/-! ### The reservations -/

@[simp] theorem settleWaiter_reserved (w : WaiterId) (outcome : WaiterPromise) :
    (gate.settleWaiter w outcome).reserved = gate.reserved := by
  -- A settlement concerns the waiter only.
  unfold settleWaiter
  split <;> [rfl; (split <;> rfl)]

@[simp] theorem wakeCapacityWaiter_reserved : gate.wakeCapacityWaiter.reserved = gate.reserved := by
  -- The waiter woken, if any, is settled.
  unfold wakeCapacityWaiter
  split <;> simp

@[simp] theorem releaseReservation_reserved :
    gate.releaseReservation.reserved = gate.reserved - 1 := by
  -- The wakeup that follows leaves the number alone.
  simp [releaseReservation, unreserve]

/-- Rejecting the parked waiters reserves nothing. -/
@[simp] theorem rejectWaiters_reserved (error : PoolError) :
    (gate.rejectWaiters error).reserved = gate.reserved := by
  -- Each turn of the loop settles one waiter.
  have kept (queue : List WaiterId) (gate : Gate) : (queue.foldl (fun gate w =>
      { gate with capacityWaiters := gate.capacityWaiters.tail }.settleWaiter w
        (.rejected error)) gate).reserved = gate.reserved := by
    induction queue generalizing gate with
    | nil => rfl
    | cons w rest ih => rw [List.foldl_cons, ih, settleWaiter_reserved]
  exact kept _ gate

/-! ### The waiters and their queue -/

/-- The queue holds exactly the waiters whose promise is pending, each once. -/
structure Sound (gate : Gate) : Prop where
  queued : ∀ (w : Nat) waiter, gate.waiters[w]? = some waiter →
    (w ∈ gate.capacityWaiters ↔ waiter.promise = .pending)
  settled : ∀ (w : Nat) waiter, gate.waiters[w]? = some waiter →
    (waiter.settled = true ↔ waiter.promise ≠ .pending)
  known : ∀ w ∈ gate.capacityWaiters, w < gate.waiters.length
  once : gate.capacityWaiters.Nodup

/-- A new gate has no waiters. -/
theorem sound_empty : Sound empty := by
  -- The queue is empty.
  constructor <;> simp [empty]

variable {gate} {w : WaiterId} {outcome : WaiterPromise}

namespace Sound

/-- A queued waiter is there, with a pending promise, and has not been settled. -/
theorem pending (sound : gate.Sound) (queued : w ∈ gate.capacityWaiters) :
    ∃ waiter, gate.waiters[w]? = some waiter ∧ waiter.promise = .pending ∧
      waiter.settled = false := by
  -- A queued waiter is known, and what is queued is pending and unsettled.
  obtain ⟨waiter, found⟩ : ∃ waiter, gate.waiters[w]? = some waiter :=
    ⟨_, List.getElem?_eq_getElem (sound.known w queued)⟩
  have awaited := (sound.queued w waiter found).mp queued
  exact ⟨waiter, found, awaited, by simpa [awaited] using sound.settled w waiter found⟩

/-- What settling a queued waiter leaves. -/
theorem settle_queued (sound : gate.Sound) (queued : w ∈ gate.capacityWaiters) :
    gate.settleWaiter w outcome =
      { gate with
        waiters := gate.waiters.modify w fun _ =>
          { promise := outcome, timer := none, settled := true }
        capacityWaiters := gate.capacityWaiters.erase w } := by
  -- The guard of the source passes, since what is queued has not been settled.
  obtain ⟨waiter, found, -, unsettled⟩ := sound.pending queued
  simp [settleWaiter, found, unsettled]

/-- Settling a waiter that is not queued changes nothing. -/
theorem settle_other (sound : gate.Sound) (unqueued : w ∉ gate.capacityWaiters) :
    gate.settleWaiter w outcome = gate := by
  -- A waiter that is not queued has been settled, so the guard turns the call away.
  unfold settleWaiter
  split
  · rfl
  · rename_i waiter found
    rw [if_pos]
    rw [sound.settled w waiter found, ne_eq, ← sound.queued w waiter found]
    exact unqueued

/-- Settling a waiter keeps the queue sound. -/
theorem settle (sound : gate.Sound) (w : WaiterId) (final : outcome ≠ .pending) :
    (gate.settleWaiter w outcome).Sound := by
  -- A waiter that is not queued is left alone, so only the queued one is of interest.
  by_cases queued : w ∈ gate.capacityWaiters
  · rw [sound.settle_queued queued]
    refine ⟨fun other waiter found => ?_, fun other waiter found => ?_, fun other inside => ?_,
      sound.once.erase w⟩
    -- The settled waiter leaves the queue as its promise stops being pending.
    · rcases Arena.getElem?_modify_cases found with ⟨rfl, old, -, rfl⟩ | ⟨differ, before⟩
      · simp [final, sound.once.mem_erase_iff]
      · rw [← sound.queued other waiter before, List.mem_erase_of_ne (Ne.symm differ)]
    · rcases Arena.getElem?_modify_cases found with ⟨-, old, -, rfl⟩ | ⟨-, before⟩
      · simp [final]
      · exact sound.settled other waiter before
    · rw [List.length_modify]
      exact sound.known other (List.mem_of_mem_erase inside)
  · rw [sound.settle_other queued]
    exact sound

/-- Taking the first waiter off the queue before settling it makes no difference. -/
theorem settle_first (sound : gate.Sound) (outcome : WaiterPromise) {rest : List WaiterId}
    (queue : gate.capacityWaiters = w :: rest) :
    { gate with capacityWaiters := rest }.settleWaiter w outcome = gate.settleWaiter w outcome ∧
      (gate.settleWaiter w outcome).capacityWaiters = rest := by
  -- Settling erases from the queue, where the first waiter is not to be found any more.
  have queued : w ∈ gate.capacityWaiters := by simp [queue]
  obtain ⟨waiter, found, -, unsettled⟩ := sound.pending queued
  have apart : w ∉ rest := (List.nodup_cons.mp (queue ▸ sound.once)).1
  rw [sound.settle_queued queued]
  simp [settleWaiter, found, unsettled, queue, List.erase_of_not_mem apart]

/-- Waking is settling the first waiter, if there is one. -/
theorem wake_eq (sound : gate.Sound) :
    gate.wakeCapacityWaiter = gate ∧ gate.capacityWaiters = [] ∨
      ∃ w rest, gate.capacityWaiters = w :: rest ∧
        gate.wakeCapacityWaiter = gate.settleWaiter w .resolved ∧
        gate.wakeCapacityWaiter.capacityWaiters = rest := by
  -- The source shifts the queue and then settles, which is settling alone.
  unfold wakeCapacityWaiter
  cases queue : gate.capacityWaiters with
  | nil => exact .inl ⟨rfl, rfl⟩
  | cons w rest =>
    obtain ⟨same, popped⟩ := sound.settle_first .resolved queue
    exact .inr ⟨w, rest, rfl, same, (congrArg Gate.capacityWaiters same).trans popped⟩

/-- Waking keeps the queue sound. -/
theorem wake (sound : gate.Sound) : gate.wakeCapacityWaiter.Sound := by
  -- Either nobody waits, or the first one is settled.
  rcases sound.wake_eq with ⟨same, -⟩ | ⟨w, rest, -, same, -⟩
  · rw [same]
    exact sound
  · rw [same]
    exact sound.settle w (by simp)

/-- The reservations say nothing about the queue. -/
theorem setReserved (sound : gate.Sound) (reserved : Int) : { gate with reserved }.Sound :=
  -- The other fields are the same.
  ⟨sound.queued, sound.settled, sound.known, sound.once⟩

/-- Parking one more acquire keeps the queue sound. -/
theorem park (sound : gate.Sound) (timeout : Duration) (now : Int) :
    (gate.park timeout now).Sound where
  queued := by
    intro w waiter found
    -- The fresh waiter is pending and at the end of the queue, the others keep their places.
    rcases Arena.getElem?_push_cases found with ⟨rfl, rfl⟩ | before
    · simp [Gate.park]
    · have less : w < gate.waiters.length := (List.getElem?_eq_some_iff.mp before).1
      simp [Gate.park, sound.queued w waiter before, Nat.ne_of_lt less]
  settled := by
    intro w waiter found
    rcases Arena.getElem?_push_cases found with ⟨-, rfl⟩ | before
    · simp
    · exact sound.settled w waiter before
  known := by
    intro w inside
    simp only [Gate.park, List.length_append, List.length_singleton]
    rcases List.mem_append.mp inside with before | new
    · exact Nat.lt_succ_of_lt (sound.known w before)
    · rw [List.mem_singleton.mp new]
      exact Nat.lt_succ_self _
  once := by
    refine List.nodup_append.mpr ⟨sound.once, by simp, fun w queued other new => ?_⟩
    rw [List.mem_singleton.mp new]
    exact Nat.ne_of_lt (sound.known w queued)

/-- Rejecting the parked waiters empties the queue, and keeps it sound. -/
theorem reject (sound : gate.Sound) (error : PoolError) :
    (gate.rejectWaiters error).Sound ∧ (gate.rejectWaiters error).capacityWaiters = [] := by
  -- Each turn of the loop settles the first waiter left.
  suffices emptied : ∀ (queue : List WaiterId) (gate : Gate), gate.Sound →
      gate.capacityWaiters = queue → ∀ last, queue.foldl (fun gate w =>
        { gate with capacityWaiters := gate.capacityWaiters.tail }.settleWaiter w
          (.rejected error)) gate = last → last.Sound ∧ last.capacityWaiters = [] from
    emptied _ gate sound rfl _ rfl
  intro queue
  induction queue with
  | nil =>
    rintro gate sound queue _ rfl
    exact ⟨sound, queue⟩
  | cons w rest ih =>
    rintro gate sound queue last rfl
    obtain ⟨same, popped⟩ := sound.settle_first (.rejected error) queue
    refine ih _ (sound.settle w (by simp)) popped _ ?_
    rw [List.foldl_cons, queue, List.tail_cons, same]

end Sound

end RefPool.Gate
