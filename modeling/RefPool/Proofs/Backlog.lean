import RefPool.Proofs.Ceiling

/-! Who waits in line for a slot, and the steps by which a call joins the line or parks. -/

namespace RefPool

namespace Gate

/-- What can happen to the gate while nobody parks. -/
inductive Moves : Gate → Gate → Prop
  | same (gate : Gate) : Moves gate gate
  | reserved (gate : Gate) (reserved : Int) : Moves gate { gate with reserved }
  | woken (gate : Gate) : Moves gate gate.wakeCapacityWaiter
  | rejected (gate : Gate) (w : WaiterId) (error : PoolError) (due : error ≠ .poolExhausted) :
      Moves gate (gate.settleWaiter w (.rejected error))
  | emptied (gate : Gate) (error : PoolError) (due : error ≠ .poolExhausted) :
      Moves gate (gate.rejectWaiters error)
  | trans {gate middle next : Gate} (first : Moves gate middle) (second : Moves middle next) :
      Moves gate next

variable {gate next : Gate}

/-- A reservation goes back and a waiter is woken. -/
theorem Moves.released (gate : Gate) : Moves gate gate.releaseReservation :=
  -- The release is a change of the number followed by a wakeup.
  (Moves.reserved gate (gate.reserved - 1)).trans (.woken _)

/-- The queue stays sound. -/
theorem Moves.sound (moves : Moves gate next) (sound : gate.Sound) : next.Sound := by
  -- Each kind of move keeps the queue sound, and so does one after the other.
  induction moves with
  | same => exact sound
  | reserved gate reserved => exact sound.setReserved reserved
  | woken => exact sound.wake
  | rejected gate w error => exact sound.settle w (by simp)
  | emptied gate error => exact (sound.reject error).1
  | trans _ _ first second => exact second (first sound)

/-- Nobody joins the queue. -/
theorem Moves.fewer (moves : Moves gate next) (sound : gate.Sound) :
    ∀ w ∈ next.capacityWaiters, w ∈ gate.capacityWaiters := by
  -- Waking and settling take waiters off the queue, and rejecting empties it.
  induction moves with
  | same | reserved => exact fun _ => id
  | woken => exact (wakeCapacityWaiter_less sound).2
  | rejected gate w error => exact (settleWaiter_less gate w _).2
  | emptied gate error => simp [(sound.reject error).2]
  | trans first _ less less' =>
    exact fun w queued => less sound w (less' (first.sound sound) w queued)

/-- What settling a waiter makes of each waiter. -/
theorem Sound.settle_waiter (sound : gate.Sound) {v : WaiterId} {outcome : WaiterPromise}
    {w : Nat} {waiter : CapacityWaiter}
    (found : (gate.settleWaiter v outcome).waiters[w]? = some waiter) :
    ∃ before, gate.waiters[w]? = some before ∧ (waiter = before ∨
      (w = v ∧ before.promise = .pending ∧ waiter.promise = outcome)) := by
  -- The queue decides whether the waiter is still to be settled.
  by_cases queued : v ∈ gate.capacityWaiters
  · rw [sound.settle_queued queued] at found
    rcases Arena.getElem?_modify_cases found with ⟨rfl, old, before, rfl⟩ | ⟨-, before⟩
    · exact ⟨old, before, .inr ⟨rfl, (sound.queued _ old before).mp queued, rfl⟩⟩
    · exact ⟨waiter, before, .inl rfl⟩
  · rw [sound.settle_other queued] at found
    exact ⟨waiter, found, .inl rfl⟩

/-- What rejecting all waiters makes of each waiter. -/
theorem Sound.reject_waiter (sound : gate.Sound) (error : PoolError) {w : Nat}
    {waiter : CapacityWaiter} (found : (gate.rejectWaiters error).waiters[w]? = some waiter) :
    ∃ before, gate.waiters[w]? = some before ∧ (waiter = before ∨
      (before.promise = .pending ∧ waiter.promise = .rejected error)) := by
  -- Each turn of the loop settles the first waiter left.
  suffices walked : ∀ (queue : List WaiterId) (gate : Gate), gate.Sound →
      gate.capacityWaiters = queue → ∀ last, queue.foldl (fun gate w =>
        { gate with capacityWaiters := gate.capacityWaiters.tail }.settleWaiter w
          (.rejected error)) gate = last → last.waiters[w]? = some waiter →
      ∃ before, gate.waiters[w]? = some before ∧ (waiter = before ∨
        (before.promise = .pending ∧ waiter.promise = .rejected error)) from
    walked _ gate sound rfl _ rfl found
  intro queue
  induction queue with
  | nil =>
    rintro gate sound queue _ rfl found
    exact ⟨waiter, found, .inl rfl⟩
  | cons v rest ih =>
    rintro gate sound queue last rfl found
    obtain ⟨same, popped⟩ := sound.settle_first (.rejected error) queue
    rw [List.foldl_cons, queue, List.tail_cons, same] at found
    obtain ⟨middle, between, step⟩ := ih _ (sound.settle v (by simp)) popped _ rfl found
    obtain ⟨before, present, first⟩ := sound.settle_waiter between
    refine ⟨before, present, ?_⟩
    rcases first with rfl | ⟨-, pending, rejected⟩
    · exact step
    · rcases step with rfl | ⟨again, -⟩
      · exact .inr ⟨pending, rejected⟩
      · simp [rejected] at again

/-- A waiter is left as it is, or settled once: woken, or rejected for a reason. -/
theorem Moves.waiter (moves : Moves gate next) (sound : gate.Sound) {w : Nat}
    {waiter : CapacityWaiter} (found : next.waiters[w]? = some waiter) :
    ∃ before, gate.waiters[w]? = some before ∧ (waiter = before ∨
      (before.promise = .pending ∧ (waiter.promise = .resolved ∨
        ∃ error, error ≠ .poolExhausted ∧ waiter.promise = .rejected error))) := by
  -- A waiter is settled by one of the moves, and only while it is pending.
  induction moves generalizing waiter with
  | same | reserved => exact ⟨waiter, found, .inl rfl⟩
  | woken gate =>
    rcases sound.wake_eq with ⟨same, -⟩ | ⟨v, rest, -, same, -⟩
    · rw [same] at found
      exact ⟨waiter, found, .inl rfl⟩
    · rw [same] at found
      obtain ⟨before, present, kept | ⟨-, pending, resolved⟩⟩ := sound.settle_waiter found
      · exact ⟨before, present, .inl kept⟩
      · exact ⟨before, present, .inr ⟨pending, .inl resolved⟩⟩
  | rejected gate v error due =>
    obtain ⟨before, present, kept | ⟨-, pending, rejected⟩⟩ := sound.settle_waiter found
    · exact ⟨before, present, .inl kept⟩
    · exact ⟨before, present, .inr ⟨pending, .inr ⟨error, due, rejected⟩⟩⟩
  | emptied gate error due =>
    obtain ⟨before, present, kept | ⟨pending, rejected⟩⟩ := sound.reject_waiter error found
    · exact ⟨before, present, .inl kept⟩
    · exact ⟨before, present, .inr ⟨pending, .inr ⟨error, due, rejected⟩⟩⟩
  | trans first _ earlier later =>
    obtain ⟨middle, between, step⟩ := later (first.sound sound) found
    obtain ⟨before, present, start⟩ := earlier sound between
    refine ⟨before, present, ?_⟩
    rcases start with rfl | ⟨pending, final⟩
    · exact step
    · -- A settled waiter is not settled again.
      rcases step with rfl | ⟨again, -⟩
      · exact .inr ⟨pending, final⟩
      · rcases final with resolved | ⟨error, -, rejected⟩
        · simp [resolved] at again
        · simp [rejected] at again

/-- The queue keeps its order. -/
theorem Moves.sublist (moves : Moves gate next) (sound : gate.Sound) :
    next.capacityWaiters.Sublist gate.capacityWaiters := by
  -- Waking takes the first off the queue, and a rejection one from anywhere.
  induction moves with
  | same | reserved => exact .refl _
  | woken gate =>
    rcases sound.wake_eq with ⟨same, -⟩ | ⟨w, rest, queue, -, popped⟩
    · rw [same]
    · rw [popped, queue]
      exact List.sublist_cons_self w rest
  | rejected gate w error =>
    unfold settleWaiter
    split
    · exact .refl _
    · split
      · exact .refl _
      · exact List.erase_sublist
  | emptied gate error => simp [(sound.reject error).2]
  | trans first _ less less' => exact (less' (first.sound sound)).trans (less sound)

end Gate

/-- Whether a call may be in line: queued on its mutex, or parked. -/
def Phase.lined : Phase → Bool
  | .queued _ | .parked _ => true
  | _ => false

/-- Exactly a parked call awaits a waiter. -/
theorem Phase.waiter_eq_some {phase : Phase} {w : WaiterId} :
    phase.waiter = some w ↔ phase = .parked w := by
  -- Every phase but one awaits no waiter.
  cases phase <;> simp [Phase.waiter]

/-- Whether a call has just been granted a slot or refused one. -/
def Phase.isAnswer : Phase → Bool
  | .granted | .threw _ => true
  | _ => false

/-- A call that is not in line is not parked. -/
theorem Phase.waiter_of_lined {phase : Phase} (out : phase.lined = false) :
    phase.waiter = none := by
  -- A parked call is in line, and so is a queued one.
  cases phase with
  | queued | parked => cases out
  | _ => rfl

namespace State

variable {κ τ : Type} [DecidableEq κ] {options : PoolOptions} {s next : State κ τ}
  {a : AcquireId} {acquire : Acquire κ} {key : κ} {e : EntryId}

/-- The pool is open and full, and nothing is there to evict. -/
structure Saturated (options : PoolOptions) (s : State κ τ) : Prop where
  bounded : 0 < options.max
  opened : s.closed = false
  full : options.max ≤ s.entries.size + s.reserved
  busy : ∀ node ∈ s.idle, s.nodePending node = true

/-- Whether the pool is saturated can be checked. -/
instance (s : State κ τ) : Decidable (s.Saturated options) :=
  decidable_of_iff (0 < options.max ∧ s.closed = false ∧
      options.max ≤ s.entries.size + s.reserved ∧ ∀ node ∈ s.idle, s.nodePending node = true)
    ⟨fun ⟨bounded, opened, full, busy⟩ => ⟨bounded, opened, full, busy⟩,
      fun ⟨bounded, opened, full, busy⟩ => ⟨bounded, opened, full, busy⟩⟩

/-- The queue of waiters has reached its cap. -/
def queueFull (options : PoolOptions) (s : State κ τ) : Bool :=
  options.maxWaiters.any fun limit : Int => limit ≤ s.capacityWaiters.length

/-- The call that a reaction continues. -/
def caller : Action κ τ → Option AcquireId
  | .obtain a | .discarded a | .resume a => some a
  | _ => none

/-- Whether a step parks the call it continues. -/
def Parks (options : PoolOptions) (s : State κ τ) (action : Action κ τ) : Prop :=
  s.contends action = true ∧ s.Saturated options ∧ s.queueFull options = false

/-- Whether a step parks can be checked. -/
instance (s : State κ τ) (action : Action κ τ) : Decidable (s.Parks options action) := by
  unfold Parks
  infer_instance

/-- Nobody joins the line, and a parked call leaves it by going on. -/
structure Settles (s : State κ τ) (action : Action κ τ) (next : State κ τ) : Prop where
  gate : Gate.Moves s.toGate next.toGate
  calls : ∀ (i : Nat) after, next.acquires[i]? = some after → s.acquires[i]? = some after ∨
    (after.phase.lined = false ∧ ∀ before, s.acquires[i]? = some before →
      before.phase.waiter ≠ none → action = .resume i ∧ after.phase.isAnswer = true)

/-- What a step does to the line. -/
inductive LineEffect (options : PoolOptions) (s : State κ τ) :
    Action κ τ → State κ τ → Prop
  /-- A new call is queued on the mutex of its key. -/
  | queued (key : κ) (cell : Option CellId) (next : State κ τ) (gate : next.toGate = s.toGate)
      (calls : next.acquires =
        s.acquires ++ [⟨key, cell, .queued ((s.toKeyState.incPending key).tailOf key)⟩]) :
      LineEffect options s (.acquire key) next
  /-- A call that is not parked, or was woken, parks at the end of the queue. -/
  | parked (action : Action κ τ) (a : AcquireId) (acquire : Acquire κ) (next : State κ τ)
      (continues : caller action = some a) (parks : s.Parks options action)
      (called : s.acquires[a]? = some acquire)
      (own : acquire.phase.waiter ≠ none → action = .resume a)
      (left : ∀ w, acquire.phase.waiter = some w → w ∉ s.capacityWaiters)
      (gate : next.toGate = s.toGate.park options.timeout s.now)
      (calls : next.acquires = s.acquires.modify a fun acquire =>
        { acquire with phase := .parked s.waiters.length }) :
      LineEffect options s action next
  /-- Any other step. -/
  | settled (action : Action κ τ) (next : State κ τ) (stays : ¬ s.Parks options action)
      (settles : Settles s action next) : LineEffect options s action next

/-- A turn of the reservation loop in a saturated pool parks the call or rejects it. -/
theorem acquireSlot_of_saturated (saturated : s.Saturated options) (a : AcquireId) :
    s.acquireSlot options a =
      if s.queueFull options then s.setPhase a (.threw .poolExhausted)
      else { s with toGate := s.toGate.park options.timeout s.now }.setPhase a
        (.parked s.waiters.length) := by
  -- The loop gets past every check but the one of the cap.
  obtain ⟨bounded, opened, full, busy⟩ := saturated
  have spared : s.idle.find? (fun node => !s.nodePending node) = none :=
    List.find?_eq_none.mpr (by simpa using busy)
  rw [acquireSlot, if_neg (by omega), if_neg (by simp [opened]), if_neg (by omega), takeLruIdle,
    spared]
  simp [waitForCapacity, opened, queueFull]

/-- A turn of the reservation loop elsewhere grants the slot, or finds the pool closed. -/
theorem acquireSlot_of_unsaturated (roomy : ¬ s.Saturated options) (a : AcquireId) :
    ∃ phase, (phase = .granted ∨ phase = .threw .poolClosed) ∧
      Gate.Moves s.toGate (s.acquireSlot options a).toGate ∧
      (s.acquireSlot options a).acquires =
        s.acquires.modify a fun acquire => { acquire with phase } := by
  -- Only in a saturated pool is the call rejected for lack of room, or parked.
  have effect : SlotEffect options s a (s.acquireSlot options a) := acquireSlot_effect s a
  generalize s.acquireSlot options a = next at effect
  cases effect with
  | unbounded => exact ⟨_, .inl rfl, .same _, rfl⟩
  | refused => exact ⟨_, .inr rfl, .same _, rfl⟩
  | reserved | evicted => exact ⟨_, .inl rfl, .reserved _ _, rfl⟩
  | exhausted bounded opened full busy | parked bounded opened full busy =>
    exact absurd ⟨bounded, opened, full, busy⟩ roomy

/-- A key without an orphan goes for a slot in an open pool. -/
theorem obtainMissing_of_absent (absent : s.orphans.get? key = none) (opened : s.closed = false)
    (a : AcquireId) : s.obtainMissing options a key = s.miss.acquireSlot options a := by
  -- There is no orphan to revive, and the pool is not closed.
  simp [obtainMissing, Store.undisposed, absent, opened]

/-- A step that contends for a slot of an open pool takes a turn of the reservation loop. -/
theorem loop_of_contends {action : Action κ τ} (opened : s.closed = false)
    (going : s.contends action = true) (stepped : s.step options action = some next) :
    ∃ a acquire base, caller action = some a ∧ s.acquires[a]? = some acquire ∧
      (acquire.phase.waiter ≠ none → action = .resume a) ∧
      (∀ w, acquire.phase.waiter = some w → ∃ waiter, s.waiters[w]? = some waiter ∧
        waiter.promise = .resolved) ∧
      (base = s ∨ base = s.miss) ∧ next = base.acquireSlot options a := by
  cases action with
  | obtain a =>
    obtain ⟨acquire, called, due⟩ := Option.bind_eq_some_iff.mp stepped
    cases phase : acquire.phase <;> simp only [phase, reduceCtorEq] at due
    obtain ⟨-, same⟩ := Option.ite_none_right_eq_some.mp due
    cases same
    -- The key is in neither of the maps.
    simp only [contends, searched, called, Option.map_some, Option.filter] at going
    split at going
    · rename_i vacant
      have absent : s.entries.get? acquire.key = none := by simpa [OrderedMap.has] using vacant
      have missing : s.orphans.get? acquire.key = none := by simpa [OrderedMap.has] using going
      refine ⟨a, acquire, s.miss, rfl, called, by simp [phase, Phase.waiter],
        by simp [phase, Phase.waiter], .inr rfl, ?_⟩
      rw [obtain, Store.undisposed, absent]
      exact obtainMissing_of_absent missing opened a
    · cases going
  -- The key is no orphan, so the loop comes next.
  | discarded a =>
    obtain ⟨acquire, called, due⟩ := Option.bind_eq_some_iff.mp stepped
    cases phase : acquire.phase <;> simp only [phase, reduceCtorEq] at due
    obtain ⟨-, same⟩ := Option.ite_none_right_eq_some.mp due
    cases same
    have missing : s.orphans.get? acquire.key = none := by
      simpa [contends, searched, called, OrderedMap.has] using going
    exact ⟨a, acquire, s.miss, rfl, called, by simp [phase, Phase.waiter],
      by simp [phase, Phase.waiter], .inr rfl, obtainMissing_of_absent missing opened a⟩
  -- The waiter was woken, and not rejected.
  | resume a =>
    obtain ⟨acquire, called, due⟩ := Option.bind_eq_some_iff.mp stepped
    cases phase : acquire.phase <;> simp only [phase, reduceCtorEq] at due
    obtain ⟨waiter, found, due⟩ := Option.bind_eq_some_iff.mp due
    obtain ⟨-, same⟩ := Option.ite_none_left_eq_some.mp due
    have woken : waiter.promise = .resolved := by
      simpa [contends, called, phase, Phase.waiter, found] using going
    rw [woken] at same
    cases same
    refine ⟨a, acquire, s, rfl, called, fun _ => rfl, fun w parked => ?_, .inl rfl, rfl⟩
    rw [phase] at parked
    cases parked
    exact ⟨waiter, found, woken⟩
  | _ => cases going

omit [DecidableEq κ] in
/-- One call goes on to a phase out of the line. -/
theorem Settles.of_move {action : Action κ τ} {phase : Phase}
    (moves : Gate.Moves s.toGate next.toGate) (called : s.acquires[a]? = some acquire)
    (calls : next.acquires = s.acquires.modify a fun acquire => { acquire with phase })
    (out : phase.lined = false)
    (own : acquire.phase.waiter ≠ none → action = .resume a ∧ phase.isAnswer = true) :
    Settles s action next where
  -- The call that moved is the only one that reads differently.
  gate := moves
  calls := by
    intro i after read
    rw [calls] at read
    rcases Arena.getElem?_modify_cases read with ⟨rfl, old, before, rfl⟩ | ⟨-, before⟩
    · refine .inr ⟨out, fun record found => ?_⟩
      cases called.symm.trans found
      exact own
    · exact .inl before

omit [DecidableEq κ] in
/-- The calls stay as they are. -/
theorem Settles.of_calls {action : Action κ τ} (moves : Gate.Moves s.toGate next.toGate)
    (calls : next.acquires = s.acquires) : Settles s action next where
  -- Every call is read as before.
  gate := moves
  calls := fun _ _ read => .inl (calls ▸ read)

/-- Dropping a reference wakes a waiter at most. -/
theorem ReleaseEffect.moves (effect : ReleaseEffect s e next) :
    Gate.Moves s.toGate next.toGate ∧ next.acquires = s.acquires := by
  -- Only an entry that becomes idle wakes somebody.
  cases effect with
  | freed => exact ⟨.woken _, rfl⟩
  | ignored | dropped | retired => exact ⟨.same _, rfl⟩

/-- A drain rejects the parked calls. -/
theorem moves_drain (wf : s.toStore.WellFormed) :
    Gate.Moves s.toGate s.drain.toGate ∧ s.drain.acquires = s.acquires := by
  -- The frame of a drain says what it does to the gate.
  refine ⟨?_, (sameCalls_drain wf).acquires⟩
  rw [(drain_frame wf).1]
  exact .emptied _ .poolClosed (by simp)

/-- A sweep wakes a waiter for each entry it evicts. -/
theorem moves_sweep (wf : s.toStore.WellFormed) :
    Gate.Moves s.toGate (s.sweep options).toGate ∧ (s.sweep options).acquires = s.acquires := by
  -- Each eviction of the loop is followed by a wakeup.
  refine ⟨?_, (sameCalls_sweep wf).acquires⟩
  exact (sweep_rule options (P := fun next => Gate.Moves s.toGate next.toGate) wf
    (fun _ _ _ _ moves _ _ _ => moves.trans (.woken _)) (fun _ _ => id) (.same _)).2

/-- Where `obtain` from the orphan lookup on finds an orphan or a closed pool, nobody parks. -/
theorem MissEffect.settles {action : Action κ τ} (effect : MissEffect options s a key next)
    (wf : s.toStore.WellFormed) (called : s.acquires[a]? = some acquire)
    (unparked : acquire.phase.waiter = none)
    (resting : s.orphans.get? key = none → s.closed = true) : Settles s action next := by
  -- The reservation loop is for an absent key in an open pool.
  cases effect with
  | resurrected e | refused =>
    exact .of_move (.same _) called rfl rfl fun parked => absurd unparked parked
  | slot _ absent opened =>
    have missing := undisposed_orphans_eq_none wf absent
    simp [resting missing] at opened

/-- A step that does not contend for a slot of an open pool parks nobody. -/
theorem Effect.line {action : Action κ τ} (core : Core s)
    (effect : Effect options s action next)
    (resting : s.contends action = true → s.closed = true) :
    LineEffect options s action next := by
  have settled (settles : Settles s action next) : LineEffect options s action next :=
    .settled action next
      (fun parks => by simpa [resting parks.1] using parks.2.1.opened) settles
  cases effect with
  -- A new call is queued, and one that hits is settled at once.
  | queued key => exact .queued key _ _ rfl rfl
  | shared key e =>
    refine settled ⟨.same _, fun i after read => ?_⟩
    have pushed : (s.acquires ++ [⟨key, none, .fulfilled s.handles.length⟩])[i]? =
        some after := by
      rw [← shared_acquires]
      exact read
    rcases Arena.getElem?_push_cases pushed with ⟨rfl, rfl⟩ | before
    · exact .inr ⟨rfl, by simp⟩
    · exact .inl before
  | released h handle next found holding effect =>
    exact settled (.of_calls effect.moves.1 effect.moves.2)
  | releasedKey key e next bound effect => exact settled (.of_calls effect.moves.1 effect.moves.2)
  | drain => exact settled (.of_calls (moves_drain core.store).1 (moves_drain core.store).2)
  | stop =>
    have closing : Gate.Moves s.toGate s.setClosed.stopTimers.toGate :=
      .emptied _ _ (by simp)
    obtain ⟨moves, calls⟩ := moves_drain (s := s.setClosed.stopTimers) core.store
    exact settled (.of_calls (closing.trans moves) calls)
  | sweep => exact settled (.of_calls (moves_sweep core.store).1 (moves_sweep core.store).2)
  | timeout w => exact settled (.of_calls (.rejected _ w .acquireTimeout (by simp)) rfl)
  | missed a acquire after next called phase turn absent effect =>
    have searched : s.searched (.obtain a) = some acquire.key := by
      simp [State.searched, called, OrderedMap.has, undisposed_entries_eq_none core.store absent,
        Option.filter]
    refine settled (effect.settles core.store called (by rw [phase]; rfl) fun missing => ?_)
    exact resting (by simp [contends, searched, OrderedMap.has, missing])
  | discarded a acquire live next called phase effect =>
    have searched : s.searched (.discarded a) = some acquire.key := by
      simp [State.searched, called]
    refine settled (effect.settles core.store called (by rw [phase]; rfl) fun missing => ?_)
    exact resting (by simp [contends, searched, OrderedMap.has, missing])
  | resumed a acquire w waiter next called phase found woken effect =>
    have closed : s.closed = true :=
      resting (by simp [contends, called, phase, Phase.waiter, found, woken])
    cases effect with
    | unbounded | refused => exact settled (.of_move (.same _) called rfl rfl fun _ => ⟨rfl, rfl⟩)
    | reserved _ opened | evicted _ _ opened | exhausted _ opened | parked _ opened =>
      simp [closed] at opened
  -- A rejected call leaves its waiter with the error.
  | abandoned a acquire w waiter error called =>
    exact settled (.of_move (.same _) called rfl rfl fun _ => ⟨rfl, rfl⟩)
  | validating a acquire after e entry called phase | returned a acquire after e entry called phase
  | creating a acquire answer bank called phase | delivered a acquire e called phase
  | failed a acquire error called phase | unvalidated a acquire live called phase
  | passed a acquire live called phase | refuted a acquire live called phase
  | lateDisposeSettled a acquire called phase =>
    exact settled (.of_move (.same _) called rfl rfl (by simp [phase, Phase.waiter]))
  -- These calls give their reservations back.
  | breakerless a acquire answer called phase =>
    exact settled (.of_move (.released _) called rfl rfl (by simp [phase, Phase.waiter]))
  | execRejected x exec found outstanding | execLate x exec resource found outstanding =>
    obtain ⟨acquire, called, -, phase⟩ := core.execs.awaited x exec found outstanding
    exact settled (.of_move (.released _) called rfl rfl (by simp [phase, Phase.waiter]))
  | inserted x exec resource found outstanding =>
    obtain ⟨acquire, called, -, phase⟩ := core.execs.awaited x exec found outstanding
    exact settled (.of_move (.reserved _ _) called rfl rfl (by simp [phase, Phase.waiter]))
  | releasedAgain | releasedNone | start | gcKeyState | emitStats | clock | drained
  | factoryCalled | factorySettled | disposeSettled | breakerChanged =>
    exact settled (.of_calls (.same _) rfl)

/-- Every step has one of the effects on the line. -/
theorem line_of_step {action : Action κ τ} (core : Core s)
    (waiting : Waiting s.toGate s.acquires s.closed)
    (stepped : s.step options action = some next) : LineEffect options s action next := by
  -- A contending step takes a turn of the loop, whose outcome depends on the room there is.
  by_cases going : s.contends action = true ∧ s.closed = false
  · obtain ⟨a, acquire, base, continues, called, own, woken, same, rfl⟩ :=
      loop_of_contends going.2 going.1 stepped
    -- Counting a miss first changes neither the gate nor the calls.
    have gate : base.toGate = s.toGate := by rcases same with rfl | rfl <;> rfl
    have calls : base.acquires = s.acquires := by rcases same with rfl | rfl <;> rfl
    have now : base.now = s.now := by rcases same with rfl | rfl <;> rfl
    have alike : base.Saturated options ↔ s.Saturated options := by
      rcases same with rfl | rfl
      · rfl
      · exact ⟨fun ⟨bounded, opened, full, busy⟩ => ⟨bounded, opened, full, busy⟩,
          fun ⟨bounded, opened, full, busy⟩ => ⟨bounded, opened, full, busy⟩⟩
    have cap : base.queueFull options = s.queueFull options := by simp only [queueFull, gate]
    by_cases saturated : base.Saturated options
    · rw [acquireSlot_of_saturated saturated, cap]
      cases full : s.queueFull options with
      | true =>
        refine .settled _ _ (fun parks => by simpa [full] using parks.2.2) ?_
        exact .of_move (gate ▸ .same _) called (congrArg _ calls) rfl
          fun parked => ⟨own parked, rfl⟩
      | false =>
        refine .parked _ a acquire _ continues ⟨going.1, alike.mp saturated, full⟩ called
          own (fun w parked => ?_) ?_ ?_
        · obtain ⟨waiter, found, resolved⟩ := woken w parked
          simp [waiting.sound.queued w waiter found, resolved]
        · show base.toGate.park options.timeout base.now = _
          rw [gate, now]
        · show base.acquires.modify a (fun acquire => { acquire with
            phase := .parked base.toGate.waiters.length }) = _
          rw [calls, gate]
    · obtain ⟨phase, rest, moves, moved⟩ := acquireSlot_of_unsaturated saturated a
      refine .settled _ _ (fun parks => saturated (alike.mpr parks.2.1)) ?_
      refine .of_move (gate ▸ moves) called (calls ▸ moved) ?_ fun parked => ⟨own parked, ?_⟩ <;>
        rcases rest with rfl | rfl <;> rfl
  -- No other step parks anybody.
  · exact (step_effect stepped).line core (by simpa using going)

end State

end RefPool
