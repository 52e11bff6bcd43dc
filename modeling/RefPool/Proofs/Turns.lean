import RefPool.Proofs.Blocked
import RefPool.Proofs.Unwedged

/-! After whatever happens to a pool, a bounded number of its own reactions brings it to rest. -/

namespace RefPool

/-- A bound on what a call takes to come to a stop, unless somebody outside moves it on. -/
def Phase.weight : Phase → Nat
  | .queued _ | .discarding _ | .parked _ => 4
  | .granted => 3
  | .returned _ | .threw _ => 1
  | .validating _ | .creating _ | .closing | .fulfilled _ | .rejected _ => 0

/-- Waking takes at most one waiter off the queue. -/
theorem Gate.Sound.length_wake {gate : Gate} (sound : gate.Sound) :
    gate.capacityWaiters.length ≤ gate.wakeCapacityWaiter.capacityWaiters.length + 1 := by
  -- Either nobody waits, or the first one leaves the queue.
  rcases sound.wake_eq with ⟨same, -⟩ | ⟨w, rest, queue, -, popped⟩
  · rw [same]
    exact Nat.le_succ _
  · rw [queue, popped]
    exact Nat.le_refl _

namespace State

variable {κ τ : Type} [DecidableEq κ] {options : PoolOptions} {s next : State κ τ}
  {a : AcquireId} {acquire : Acquire κ} {key : κ} {action : Action κ τ}

/-- A bound on the reactions that the calls and the drains in flight can have. -/
def work (s : State κ τ) : Nat :=
  (s.acquires.map fun acquire => if s.isParked acquire then 3 else acquire.phase.weight).sum +
    s.drains.countP fun call => !call.fulfilled

/-- What the calls and the drains weigh, wherever their waiters stand. -/
def weight (s : State κ τ) : Nat :=
  (s.acquires.map fun acquire => acquire.phase.weight).sum +
    s.drains.countP fun call => !call.fulfilled

omit [DecidableEq κ] in
/-- A parked call weighs one less as long as its waiter is in the queue. -/
theorem work_add_parked (s : State κ τ) :
    s.work + s.acquires.countP s.isParked = s.weight := by
  have each (acquire : Acquire κ) (parked : s.isParked acquire = true) :
      acquire.phase.weight = 4 := by
    cases phase : acquire.phase <;> simp [isParked, phase, Phase.waiter, Phase.weight] at parked ⊢
  unfold work weight
  generalize s.acquires = acquires
  -- One call after the other.
  induction acquires with
  | nil => rfl
  | cons acquire rest ih =>
    rw [List.map_cons, List.sum_cons, List.countP_cons, List.map_cons, List.sum_cons]
    by_cases parked : s.isParked acquire = true
    · have four := each acquire parked
      simp only [parked, if_true]
      omega
    · simp only [parked, if_false, Bool.false_eq_true]
      omega

/-- The work is the weight without the queue of waiters. -/
theorem Lined.work_eq (lined : Lined options s) :
    s.work + s.capacityWaiters.length = s.weight := by
  -- The queue is as long as there are parked calls.
  rw [lined.length_capacityWaiters, work_add_parked]

omit [DecidableEq κ] in
/-- A call that moves takes its weight along. -/
theorem weight_of_move {phase : Phase} (called : s.acquires[a]? = some acquire)
    (moved : next.acquires = s.acquires.modify a fun acquire => { acquire with phase })
    (drains : next.drains = s.drains) :
    next.weight + acquire.phase.weight = s.weight + phase.weight := by
  have sum := Arena.sum_modify (fun acquire : Acquire κ => { acquire with phase })
    (fun acquire => acquire.phase.weight) called
  -- The sums differ in the weight of that one call.
  unfold weight
  rw [moved, drains]
  simp only at sum
  omega

/-- A turn of the reservation loop leaves the call lighter, or in the queue. -/
theorem SlotEffect.lighter (effect : SlotEffect options s a next) : ∃ phase : Phase,
    next.acquires = s.acquires.modify a (fun acquire => { acquire with phase }) ∧
      next.drains = s.drains ∧
      phase.weight + s.capacityWaiters.length < 4 + next.capacityWaiters.length := by
  -- A parked call is not lighter by itself, but the line has become longer.
  cases effect with
  | unbounded | reserved | evicted =>
    exact ⟨.granted, rfl, rfl, Nat.add_lt_add_right (by decide) _⟩
  | refused | exhausted =>
    exact ⟨.threw _, rfl, rfl, Nat.add_lt_add_right (by decide) _⟩
  | parked =>
    refine ⟨.parked _, rfl, rfl, ?_⟩
    simp [Phase.weight, setPhase, Gate.park]

/-- `obtain` from the orphan lookup on leaves the call lighter, or in the queue. -/
theorem MissEffect.lighter (effect : MissEffect options s a key next) : ∃ phase : Phase,
    next.acquires = s.acquires.modify a (fun acquire => { acquire with phase }) ∧
      next.drains = s.drains ∧
      phase.weight + s.capacityWaiters.length < 4 + next.capacityWaiters.length := by
  -- A resurrection and a refusal end the search.
  cases effect with
  | resurrected e => exact ⟨.returned e, rfl, rfl, Nat.add_lt_add_right (by simp [Phase.weight]) _⟩
  | refused => exact ⟨.threw _, rfl, rfl, Nat.add_lt_add_right (by decide) _⟩
  | slot _ _ _ effect => exact effect.lighter

/-- A drain fulfils once. -/
theorem unfulfilled_of_drained {d : DrainId} (stepped : s.step options (.drained d) = some next) :
    ∃ call, s.drains[d]? = some call ∧ call.fulfilled = false := by
  -- The step tests whether the drain is over.
  simp only [step, Option.bind_eq_some_iff] at stepped
  obtain ⟨call, found, stepped⟩ := stepped
  rw [Option.ite_none_right_eq_some] at stepped
  exact ⟨call, found, by simpa using stepped.1.1⟩

/-- Every reaction of the pool leaves less to do. -/
theorem Lined.work_lower (lined : Lined options s) (reaction : action.isReaction = true)
    (stepped : s.step options action = some next) : next.work < s.work := by
  have before := lined.work_eq
  have after := (lined_step lined stepped).work_eq
  -- What counts is the weight of the call that moves, and who is taken off the queue.
  suffices lighter : next.weight + s.capacityWaiters.length <
      s.weight + next.capacityWaiters.length by omega
  have move {a : AcquireId} {acquire : Acquire κ} {phase : Phase}
      (called : s.acquires[a]? = some acquire)
      (moved : next.acquires = s.acquires.modify a fun acquire => { acquire with phase })
      (drains : next.drains = s.drains)
      (less : phase.weight + s.capacityWaiters.length <
        acquire.phase.weight + next.capacityWaiters.length) :
      next.weight + s.capacityWaiters.length < s.weight + next.capacityWaiters.length := by
    have weights := weight_of_move called moved drains
    omega
  have still {before after : Phase} {acquire : Acquire κ} (phase : acquire.phase = before)
      (less : after.weight < before.weight) :
      after.weight + s.capacityWaiters.length < acquire.phase.weight + s.capacityWaiters.length :=
    Nat.add_lt_add_right (phase ▸ less) _
  cases step_effect stepped with
  | validating a acquire after e entry called phase =>
    exact move called rfl rfl (still phase (by simp [Phase.weight]))
  | returned a acquire after e entry called phase =>
    exact move called rfl rfl (still phase (by simp [Phase.weight]))
  | missed a acquire after next called phase turn absent effect =>
    obtain ⟨reached, moved, drains, less⟩ := effect.lighter
    exact move called moved drains (by rw [phase]; exact less)
  | discarded a acquire live next called phase effect =>
    obtain ⟨reached, moved, drains, less⟩ := effect.lighter
    exact move called moved drains (by rw [phase]; exact less)
  | resumed a acquire w waiter next called phase found woken effect =>
    obtain ⟨reached, moved, drains, less⟩ := effect.lighter
    exact move called moved drains (by rw [phase]; exact less)
  | abandoned a acquire w waiter error called phase =>
    exact move called rfl rfl (still phase (by simp [Phase.weight]))
  | breakerless a acquire answer called phase =>
    -- The call that fails wakes at most one other.
    have woken : s.capacityWaiters.length ≤
        s.toGate.releaseReservation.capacityWaiters.length + 1 :=
      (lined.waiting.sound.setReserved (s.reserved - 1)).length_wake
    have light : (Phase.threw .breakerFactoryFailed).weight + s.capacityWaiters.length <
        acquire.phase.weight + s.toGate.releaseReservation.capacityWaiters.length := by
      simp only [phase, Phase.weight]
      omega
    exact move called rfl rfl light
  | creating a acquire answer bank called phase =>
    exact move called rfl rfl (still phase (by simp [Phase.weight]))
  | delivered a acquire e called phase =>
    exact move called rfl rfl (still phase (by simp [Phase.weight]))
  | failed a acquire error called phase =>
    exact move called rfl rfl (still phase (by simp [Phase.weight]))
  | drained d call found waited =>
    obtain ⟨call, found, unfulfilled⟩ := unfulfilled_of_drained stepped
    have fewer := Arena.countP_modify (fun call : DrainCall => { call with fulfilled := true })
      (fun call => !call.fulfilled) found
    simp only [unfulfilled, Bool.not_false, if_true, Bool.not_true, Bool.false_eq_true,
      if_false] at fewer
    simp only [weight, drained, emit]
    omega
  | _ => cases reaction

/-! ### At rest -/

/-- What keeps a call from going on that only somebody outside can bring about. -/
def Outstanding (s : State κ τ) : Phase → Prop
  | .validating _ | .closing => True
  | .discarding live => ∃ entry, s.heap[live]? = some entry ∧ entry.disposing = true ∧
      entry.disposed = false
  | .creating x => ∃ exec, s.execs[x]? = some exec ∧ exec.outcome = .pending
  -- Whoever frees a slot wakes a parked call.
  | .parked w => w ∈ s.capacityWaiters
  | _ => False

/-- The entry whose disposal resolves one of the promises that a drain waits for. -/
def waitEntry (s : State κ τ) : Wait → Option EntryId
  | .ready => none
  | .disposing e => some e
  | .disposal i => (s.disposalWaits[i]?).map DisposalWait.entry

/-- Everything that was asked of the pool is done, or waits for somebody outside. -/
structure Waits (s : State κ τ) : Prop where
  /-- Each call of `acquire` in flight is, or is queued behind, one of its key that waits. -/
  calls : ∀ acquire ∈ s.acquires, acquire.phase.stage ≠ .settled →
    ∃ first ∈ s.acquires, first.key = acquire.key ∧ s.Outstanding first.phase
  /--
  Each drain in flight has an unresolved promise among its own, and the entry of that promise is
  being disposed of or is condemned and held.
  -/
  drains : ∀ call ∈ s.drains, call.fulfilled = false →
    ∃ wait ∈ call.waits, s.waitResolved wait = false ∧
      ∃ (e : EntryId) (entry : Entry κ τ), s.waitEntry wait = some e ∧
        s.heap[e]? = some entry ∧ entry.Ending

/-- At rest a call has settled, waits for somebody outside, or waits for its turn. -/
theorem Quiescent.outstanding (quiet : Quiescent options s) (core : Core s)
    (waiting : Waiting s.toGate s.acquires s.closed) (called : s.acquires[a]? = some acquire) :
    acquire.phase.stage = .settled ∨ s.Outstanding acquire.phase ∨
      ∃ after, acquire.phase = .queued after ∧ s.turnOf after = false := by
  have stuck := quiet.stuck called
  have fits := core.phases a acquire called
  cases phase : acquire.phase with
  | queued after =>
    rw [phase] at stuck
    exact .inr (.inr ⟨after, rfl, stuck⟩)
  | validating | closing => exact .inr (.inl trivial)
  | discarding live =>
    rw [phase] at stuck fits
    obtain ⟨entry, found, -, begun, -⟩ := fits
    exact .inr (.inl ⟨entry, found, begun, by simpa [Stuck, waitResolved, found] using stuck⟩)
  | parked w =>
    rw [phase] at stuck
    have made := waiting.known acquire (List.mem_of_getElem? called) w (by rw [phase]; rfl)
    have found := List.getElem?_eq_getElem made
    exact .inr (.inl ((waiting.sound.queued w _ found).mpr (stuck _ found)))
  | creating x =>
    obtain ⟨exec, found, outstanding, -⟩ := core.execs.started a acquire x called phase
    exact .inr (.inl ⟨exec, found, outstanding⟩)
  -- In these phases the call would go on by itself.
  | granted | returned | threw =>
    rw [phase] at stuck
    exact stuck.elim
  | fulfilled | rejected => exact .inl rfl

/-- At rest whatever is in flight waits for somebody outside. -/
theorem Quiescent.waits (quiet : Quiescent options s) (core : Core s)
    (waiting : Waiting s.toGate s.acquires s.closed) (attends : Attends s) : s.Waits where
  calls := by
    intro acquire inside unsettled
    obtain ⟨t, called⟩ := List.mem_iff_getElem?.mp inside
    -- The first of its key that is open waits for nobody of its key.
    obtain ⟨i, first, present, opened, same, ready⟩ := core.chained.exists_first
      (slot_of_called called) (by simp [Slot.isOpen, Acquire.slot, unsettled])
    obtain ⟨found, calledFirst, rfl⟩ : ∃ found, s.acquires[i]? = some found ∧
        found.slot = first := by simpa using present
    refine ⟨found, List.mem_of_getElem? calledFirst, same, ?_⟩
    rcases quiet.outstanding core waiting calledFirst with settled | outstanding |
        ⟨after, phase, turn⟩
    · simp [Slot.isOpen, Acquire.slot, settled] at opened
    · exact outstanding
    · cases after with
      | none => simp [turnOf] at turn
      | some p =>
        obtain ⟨before, behind, ended⟩ := ready p (by simp [Acquire.slot, phase, Phase.stage])
        obtain ⟨prior, calledPrior, rfl⟩ : ∃ prior, s.acquires[p]? = some prior ∧
            prior.slot = before := by simpa using behind
        -- Its predecessor has settled, so its turn has come.
        cases reached : prior.phase <;>
          simp_all [turnOf, Slot.isOpen, Acquire.slot, Phase.stage]
  drains := by
    intro call inside unfulfilled
    obtain ⟨d, found⟩ := List.mem_iff_getElem?.mp inside
    -- Something that the drain waits for has not resolved.
    have idle := quiet (.drained d) rfl
    simp only [step, found, Option.bind_some, unfulfilled, Bool.not_false, true_and,
      ite_eq_right_iff, reduceCtorEq, imp_false, Bool.not_eq_true, List.all_eq_false] at idle
    obtain ⟨wait, member, unresolved⟩ := idle
    have grounded := attends.grounded call inside wait member
    refine ⟨wait, member, unresolved, ?_⟩
    cases wait with
    | ready => simp [waitResolved] at unresolved
    | disposing e =>
      obtain ⟨entry, present, begun⟩ := grounded
      exact ⟨e, entry, rfl, present, by simpa [waitResolved, present] using unresolved, .inl begun⟩
    | disposal i =>
      have promised : s.disposalWaits[i]? = some s.disposalWaits[i] :=
        List.getElem?_eq_getElem grounded
      simp only [waitResolved, promised, Option.any_some] at unresolved
      obtain ⟨entry, present, waited⟩ := attends.listed i _ promised unresolved
      exact ⟨_, entry, by rw [waitEntry, promised, Option.map_some], present,
        attends.ending _ entry present (List.ne_nil_of_mem waited)⟩

/-! ### The end of a turn -/

/-- A bounded number of reactions brings the pool to rest, in whatever order they run. -/
structure ComesToRest (options : PoolOptions) (s : State κ τ) : Prop where
  bounded : ∀ (reactions : List (Action κ τ)) last,
    (∀ reaction ∈ reactions, reaction.isReaction = true) →
    Runs.run (step options) s reactions = some last → reactions.length + last.work ≤ s.work
  rests : ∃ (reactions : List (Action κ τ)) (last : State κ τ),
    (∀ reaction ∈ reactions, reaction.isReaction = true) ∧
    Runs.run (step options) s reactions = some last ∧ Quiescent options last ∧ last.Waits

/-- What holds of the calls and the drains in every run. -/
structure Ordered (options : PoolOptions) (s : State κ τ) : Prop where
  lined : Lined options s
  attends : Attends s

/-- Every step keeps what holds of the calls and the drains. -/
theorem ordered_step (ordered : Ordered options s) (stepped : s.step options action = some next) :
    Ordered options next where
  -- The line of calls and the promises have their own laws.
  lined := lined_step ordered.lined stepped
  attends := (step_effect stepped).attends ordered.lined.core.store ordered.attends

/--
The pool never runs on by itself: in every state of every run its reactions, in whatever order
they are taken, come to an end within a bound that is read off the calls and drains in flight, and
whatever is in flight then waits for somebody outside.
-/
theorem comesToRest_throughout (options : PoolOptions) (actions : List (Action κ τ)) :
    Runs.Throughout (step options) (ComesToRest options) (init options) actions := by
  have kept : ∀ (s : State κ τ) a next, Ordered options s → s.step options a = some next →
      Ordered options next := fun _ _ _ ordered stepped => ordered_step ordered stepped
  have lower : ∀ (s : State κ τ) a next, Ordered options s → a.isReaction = true →
      s.step options a = some next → next.work < s.work :=
    fun _ _ _ ordered reaction stepped => ordered.lined.work_lower reaction stepped
  -- Each reaction takes work off, so that they end, and end where nothing can go on.
  refine (Runs.throughout_of_invariant (Ordered options) kept
    ⟨lined_init options, attends_init options⟩ actions).mono fun s ordered => ⟨?_, ?_⟩
  · intro reactions last all ran
    exact Runs.length_le_of_measure (Ordered options) work
      (fun s a next ordered _ => kept s a next ordered) lower ordered all ran
  · obtain ⟨reactions, last, all, ran, quiet⟩ :=
      Runs.exists_run_of_measure (Ordered options) work
        (fun s a next ordered _ => kept s a next ordered) lower ordered
    have later := Runs.run_invariant (Ordered options) kept ordered ran
    exact ⟨reactions, last, all, ran, quiet,
      Quiescent.waits quiet later.lined.core later.lined.waiting later.attends⟩

end State

end RefPool
