import RefPool.Proofs.Waiters

/-! A bounded pool has one reservation for each creation that passed the gate and goes on. -/

namespace RefPool

/-- Whether a call holds a reservation: a slot was granted and its creation has not ended. -/
def Phase.reserving : Phase → Bool
  | .granted | .creating _ => true
  | _ => false

section Reserving

variable {κ : Type} {acquires : List (Acquire κ)} {a : AcquireId} {acquire : Acquire κ}

/-- How many calls hold a reservation. -/
def reservations (acquires : List (Acquire κ)) : Nat :=
  acquires.countP fun acquire => acquire.phase.reserving

/-- A new call without a reservation adds none. -/
theorem reservations_push (without : acquire.phase.reserving = false) :
    reservations (acquires ++ [acquire]) = reservations acquires := by
  -- One call more is counted, which has none.
  simp [reservations, List.countP_append, without]

/-- A call that moves changes the reservations by its own. -/
theorem reservations_move (called : acquires[a]? = some acquire) (phase : Phase) :
    reservations (acquires.modify a fun acquire => { acquire with phase }) +
      (if acquire.phase.reserving then 1 else 0) =
      reservations acquires + if phase.reserving then 1 else 0 :=
  -- A count changes by what the one call counts.
  Arena.countP_modify (fun acquire : Acquire κ => { acquire with phase }) _ called

end Reserving

namespace State

variable {κ τ : Type} [DecidableEq κ] {options : PoolOptions} {s next : State κ τ}
  {a : AcquireId} {acquire : Acquire κ}

/-- The reservations counted are those that calls hold. -/
def Booked (s : State κ τ) : Prop := s.reserved = reservations s.acquires

omit [DecidableEq κ] in
/-- Moving a call between phases of one kind changes no reservation. -/
theorem Booked.move (booked : s.Booked) (called : s.acquires[a]? = some acquire)
    (phase : Phase) (same : phase.reserving = acquire.phase.reserving)
    (calls : next.acquires = s.acquires.modify a fun acquire => { acquire with phase })
    (gate : next.reserved = s.reserved) : next.Booked := by
  -- The call counts for as much as before.
  have moved := reservations_move called phase
  rw [same] at moved
  unfold Booked at booked ⊢
  rw [calls, gate, booked]
  omega

omit [DecidableEq κ] in
/-- A call takes a reservation. -/
theorem Booked.take (booked : s.Booked) (called : s.acquires[a]? = some acquire)
    (phase : Phase) (before : acquire.phase.reserving = false) (after : phase.reserving = true)
    (calls : next.acquires = s.acquires.modify a fun acquire => { acquire with phase })
    (gate : next.reserved = s.reserved + 1) : next.Booked := by
  -- The call counts for one more from now on.
  have moved := reservations_move called phase
  rw [before, after] at moved
  unfold Booked at booked ⊢
  rw [calls, gate, booked]
  simp only [Bool.false_eq_true, if_false, if_true] at moved
  omega

omit [DecidableEq κ] in
/-- A call gives its reservation back. -/
theorem Booked.give (booked : s.Booked) (called : s.acquires[a]? = some acquire)
    (phase : Phase) (before : acquire.phase.reserving = true) (after : phase.reserving = false)
    (calls : next.acquires = s.acquires.modify a fun acquire => { acquire with phase })
    (gate : next.reserved = s.reserved - 1) : next.Booked := by
  -- The call counts for one less from now on.
  have moved := reservations_move called phase
  rw [before, after] at moved
  unfold Booked at booked ⊢
  rw [calls, gate, booked]
  simp only [Bool.false_eq_true, if_false, if_true] at moved
  omega

/-- A turn of the reservation loop takes a reservation exactly when it grants a slot. -/
theorem SlotEffect.booked (effect : SlotEffect options s a next) (bounded : 0 < options.max)
    (called : s.acquires[a]? = some acquire) (without : acquire.phase.reserving = false)
    (booked : s.Booked) : next.Booked := by
  -- Outside a bounded pool the loop grants slots without counting them.
  cases effect with
  | unbounded disabled => omega
  | refused => exact booked.move called (.threw .poolClosed) without.symm rfl rfl
  | exhausted => exact booked.move called (.threw .poolExhausted) without.symm rfl rfl
  | parked => exact booked.move called (.parked s.waiters.length) without.symm rfl rfl
  | reserved | evicted => exact booked.take called .granted without rfl rfl rfl

/-- `obtain` from the orphan lookup on takes a reservation exactly when it grants a slot. -/
theorem MissEffect.booked {key : κ} (effect : MissEffect options s a key next)
    (bounded : 0 < options.max) (called : s.acquires[a]? = some acquire)
    (without : acquire.phase.reserving = false) (booked : s.Booked) : next.Booked := by
  -- A call that finds an orphan or a closed pool takes no reservation.
  cases effect with
  | resurrected e => exact booked.move called (.returned e) without.symm rfl rfl
  | refused => exact booked.move called (.threw .poolClosed) without.symm rfl rfl
  | slot _ _ _ effect => exact effect.booked bounded called without booked

/-- Dropping a reference touches no reservation. -/
theorem ReleaseEffect.booked {e : EntryId} (effect : ReleaseEffect s e next)
    (booked : s.Booked) : next.Booked := by
  -- Waking a waiter leaves the counter alone.
  cases effect with
  | ignored | dropped | retired => exact booked
  | freed => exact (Gate.wakeCapacityWaiter_reserved s.toGate).trans booked

/-- A drain touches no reservation. -/
theorem booked_drain (wf : s.toStore.WellFormed) (booked : s.Booked) :
    s.drain.Booked := by
  -- A drain rejects waiters, which leaves the counter alone, and touches no call.
  unfold Booked
  rw [(drain_frame wf).1, (sameCalls_drain wf).acquires, Gate.rejectWaiters_reserved]
  exact booked

/-- Every step of a bounded pool counts the reservations that calls hold. -/
theorem Effect.booked {action : Action κ τ} (core : Core s)
    (effect : Effect options s action next) (bounded : 0 < options.max)
    (booked : s.Booked) : next.Booked := by
  -- The counter moves with the calls that enter or leave a creation.
  have wf := core.store
  cases effect with
  -- New calls hold no reservation.
  | shared key e =>
    have pushed : reservations (s.acquires ++ [⟨key, none, .fulfilled s.handles.length⟩]) =
        reservations s.acquires := reservations_push rfl
    rw [← shared_acquires] at pushed
    exact booked.trans (congrArg Nat.cast pushed.symm)
  | queued key => exact booked.trans (congrArg Nat.cast (reservations_push rfl).symm)
  | released h handle next found holding effect => exact effect.booked booked
  | releasedKey key e next bound effect => exact effect.booked booked
  | drain => exact booked_drain wf booked
  | stop =>
    exact booked_drain (s := s.setClosed.stopTimers) wf
      ((Gate.rejectWaiters_reserved s.toGate .poolClosed).trans booked)
  | sweep =>
    exact (sweep_rule options (P := fun next => next.Booked) wf
      (fun next _ _ _ booked _ _ _ =>
        (Gate.wakeCapacityWaiter_reserved next.toGate).trans booked)
      (fun _ _ => id) booked).2
  | timeout w => exact (Gate.settleWaiter_reserved s.toGate w _).trans booked
  | missed a acquire after next called phase turn absent effect =>
    exact effect.booked bounded called (by rw [phase]; rfl) booked
  | discarded a acquire live next called phase effect =>
    exact effect.booked bounded called (by rw [phase]; rfl) booked
  | resumed a acquire w waiter next called phase found woken effect =>
    exact effect.booked bounded called (by rw [phase]; rfl) booked
  | abandoned a acquire w waiter error called phase =>
    exact booked.move called _ (by rw [phase]; rfl) rfl rfl
  | validating a acquire after e entry called phase
  | returned a acquire after e entry called phase =>
    exact booked.move called _ (by rw [phase]; rfl) rfl rfl
  -- A breaker that cannot be had ends the creation before it began.
  | breakerless a acquire answer called phase =>
    exact booked.give called _ (by rw [phase]; rfl) rfl rfl
      (Gate.releaseReservation_reserved s.toGate)
  -- These moves neither begin nor end a creation.
  | creating a acquire answer bank called phase | delivered a acquire e called phase
  | failed a acquire error called phase | unvalidated a acquire live called phase
  | passed a acquire live called phase | refuted a acquire live called phase
  | lateDisposeSettled a acquire called phase =>
    exact booked.move called _ (by rw [phase]; rfl) rfl rfl
  -- The call that awaits the exec ends its creation.
  | execRejected x exec found outstanding | execLate x exec resource found outstanding =>
    obtain ⟨acquire, called, -, phase⟩ := core.execs.awaited x exec found outstanding
    exact booked.give called _ (by rw [phase]; rfl) rfl rfl
      (Gate.releaseReservation_reserved s.toGate)
  | inserted x exec resource found outstanding =>
    obtain ⟨acquire, called, -, phase⟩ := core.execs.awaited x exec found outstanding
    exact booked.give called _ (by rw [phase]; rfl) rfl rfl rfl
  | releasedAgain | releasedNone | start | gcKeyState | emitStats | clock | drained
  | factoryCalled | factorySettled | disposeSettled | breakerChanged => exact booked

omit [DecidableEq κ] in
/-- A new pool has no reservations. -/
theorem booked_init (options : PoolOptions) : (init options : State κ τ).Booked := rfl

/-- In a bounded pool the reservations counted are those that calls hold, throughout every run. -/
theorem booked_run {actions : List (Action κ τ)} (bounded : 0 < options.max)
    (ran : Runs.run (step options) (init options) actions = some s) : s.Booked := by
  -- Each step keeps the count, given the invariant that ties execs to calls.
  have kept := Runs.run_invariant (fun s : State κ τ => Core s ∧ s.Booked)
    (fun s action next ⟨core, booked⟩ (stepped : s.step options action = some next) =>
      ⟨core_step core stepped, (step_effect stepped).booked core bounded booked⟩)
    ⟨core_init options, booked_init options⟩ ran
  exact kept.2

end State

end RefPool
