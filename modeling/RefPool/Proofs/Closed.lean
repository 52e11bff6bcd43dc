import RefPool.Proofs.DrainWaits

/-! What lasts while a closed pool is not opened: no entry is new, and no promise is forgotten. -/

namespace RefPool.State

variable {κ τ : Type} [DecidableEq κ] {options : PoolOptions} {s next : State κ τ} {e : EntryId}

/-- What a step of a closed pool leaves in place, unless it opens the pool. -/
structure StaysClosed (s next : State κ τ) : Prop where
  closed : s.closed = true → next.closed = true
  length : s.closed = true → next.heap.length = s.heap.length
  drains : ∀ (d : Nat) call, s.drains[d]? = some call →
    ∃ after, next.drains[d]? = some after ∧ after.waits = call.waits
  promises : ∀ (i : Nat) wait, s.disposalWaits[i]? = some wait →
    ∃ after, next.disposalWaits[i]? = some after ∧ after.entry = wait.entry

namespace StaysClosed

omit [DecidableEq κ] in
/-- What does not touch flags, drains and promises leaves them in place. -/
theorem of_same (closed : next.closed = s.closed) (length : next.heap.length = s.heap.length)
    (drains : next.drains = s.drains) (promises : next.disposalWaits = s.disposalWaits) :
    StaysClosed s next :=
  -- Each part is read from a field that stays.
  ⟨fun shut => closed.trans shut, fun _ => length,
    fun _ call found => ⟨call, drains ▸ found, rfl⟩,
    fun _ wait found => ⟨wait, promises ▸ found, rfl⟩⟩

omit [DecidableEq κ] in
/-- What lasts through two steps lasts through both. -/
theorem trans {middle : State κ τ} (first : StaysClosed s middle)
    (second : StaysClosed middle next) : StaysClosed s next where
  -- Each clause is composed with itself.
  closed := second.closed ∘ first.closed
  length := fun shut => (second.length (first.closed shut)).trans (first.length shut)
  drains := by
    intro d call found
    obtain ⟨between, present, same⟩ := first.drains d call found
    obtain ⟨after, last, same'⟩ := second.drains d between present
    exact ⟨after, last, same'.trans same⟩
  promises := by
    intro i wait found
    obtain ⟨between, present, same⟩ := first.promises i wait found
    obtain ⟨after, last, same'⟩ := second.promises i between present
    exact ⟨after, last, same'.trans same⟩

end StaysClosed

/-- A turn of the reservation loop leaves a closed pool closed. -/
theorem SlotEffect.staysClosed {a : AcquireId} (effect : SlotEffect options s a next) :
    StaysClosed s next := by
  -- A turn of the loop opens nothing, allocates nothing and makes no promise.
  have length := effect.kept.length
  cases effect <;> exact .of_same rfl length rfl rfl

/-- `obtain` from the orphan lookup on leaves a closed pool closed. -/
theorem MissEffect.staysClosed {a : AcquireId} {key : κ}
    (effect : MissEffect options s a key next) : StaysClosed s next := by
  -- Only the reservation loop remains to be looked at, and it evicts at most.
  have length := effect.kept.length
  cases effect with
  | resurrected | refused => exact .of_same rfl length rfl rfl
  | slot _ _ _ effect =>
    exact ⟨effect.staysClosed.closed, effect.staysClosed.length, effect.staysClosed.drains,
      effect.staysClosed.promises⟩

/-- Dropping a reference leaves a closed pool closed. -/
theorem ReleaseEffect.staysClosed (effect : ReleaseEffect s e next) : StaysClosed s next := by
  -- A release reassigns one entry at most.
  have length : next.heap.length = s.heap.length := by
    rcases effect.heap with ⟨-, rfl⟩ | ⟨entry, assign, -, -, -, heap, -⟩
    · rfl
    · rw [heap, List.length_modify]
  cases effect <;> exact .of_same rfl length rfl rfl

/-- A drain closes the pool and adds its promises behind the others. -/
theorem staysClosed_drain (wf : s.toStore.WellFormed) :
    StaysClosed s s.drain ∧ s.drain.closed = true := by
  -- The turns append promises, and the end of the drain appends its call.
  obtain ⟨last, waits, -, ⟨drains, promises⟩, -, same⟩ := drain_rule (s := s)
    (P := fun next _ => next.drains = s.drains ∧
      ∀ (i : Nat) wait, s.disposalWaits[i]? = some wait → next.disposalWaits[i]? = some wait) wf
    (fun _ _ _ _ _ kept _ _ _ => kept)
    (fun _ _ _ _ _ ⟨drains, promises⟩ _ _ _ =>
      ⟨drains, fun i wait made => Arena.getElem?_push_of_some _ (promises i wait made)⟩)
    (fun _ _ _ _ _ ⟨drains, promises⟩ _ _ _ =>
      ⟨drains, fun i wait made => Arena.getElem?_push_of_some _ (promises i wait made)⟩)
    ⟨rfl, fun _ _ => id⟩
  have closed := (drain_frame wf).2.1
  have length := (kept_drain wf).length
  refine ⟨⟨fun _ => closed, fun _ => length, fun d call found => ⟨call, ?_, rfl⟩,
    fun i wait made => ⟨wait, ?_, rfl⟩⟩, closed⟩
  · rw [same]
    exact Arena.getElem?_push_of_some _ (drains ▸ found)
  · rw [same]
    exact promises i wait made

/-- Every step but `start` leaves a closed pool closed. -/
theorem Effect.staysClosed {action : Action κ τ} (wf : s.toStore.WellFormed)
    (effect : Effect options s action next) (unopened : action ≠ .start) :
    StaysClosed s next := by
  -- An entry is inserted only while the pool is open, and only `start` opens it.
  cases effect with
  | shared key e =>
    exact .of_same rfl (by simp [checkout, conclude, hit, setPhase, emitFor]) rfl rfl
  | delivered a acquire e =>
    exact .of_same rfl (by simp [deliver, checkout, conclude, setPhase, emitFor]) rfl rfl
  | released h handle next found holding effect =>
    exact ⟨effect.staysClosed.closed, effect.staysClosed.length, effect.staysClosed.drains,
      effect.staysClosed.promises⟩
  | releasedKey key e next bound effect => exact effect.staysClosed
  | drain => exact (staysClosed_drain wf).1
  | stop =>
    have drained := (staysClosed_drain (s := s.setClosed.stopTimers) wf).1
    exact ⟨fun _ => drained.closed rfl, fun _ => drained.length rfl, drained.drains,
      drained.promises⟩
  | start => exact absurd rfl unopened
  | sweep =>
    obtain ⟨-, closed, drains, promises⟩ := sweep_rule options
      (P := fun next => next.closed = s.closed ∧ next.drains = s.drains ∧
        next.disposalWaits = s.disposalWaits) wf (fun _ _ _ _ kept _ _ _ => kept)
      (fun _ _ => id) ⟨rfl, rfl, rfl⟩
    exact .of_same closed (kept_sweep wf).length drains promises
  | missed a acquire after next called phase turn absent effect => exact effect.staysClosed
  | discarded a acquire live next called phase effect => exact effect.staysClosed
  | resumed a acquire w waiter next called phase found woken effect => exact effect.staysClosed
  | refuted a acquire live =>
    have kept : s.toStore.Kept ((s.toStore.removeEntry live).beginDispose live) := .discard live
    exact .of_same rfl kept.length rfl rfl
  -- A late resource goes into a closed pool by no step.
  | inserted x exec resource found outstanding opened =>
    exact ⟨id, fun shut => by simp [opened] at shut, fun d call found => ⟨call, found, rfl⟩,
      fun i wait found => ⟨wait, found, rfl⟩⟩
  | disposeSettled e entry =>
    refine ⟨id, fun _ => ?_, fun d call found => ⟨call, found, rfl⟩,
      fun i wait found => getElem?_resolveAll_of_some _ found⟩
    rw [finishDispose_heap, List.length_modify]
  -- A drain that fulfils stays the same call.
  | drained d =>
    exact ⟨id, fun _ => rfl,
      fun other call found => Arena.exists_getElem?_modify found (fun _ => rfl) fun _ => rfl,
      fun i wait found => ⟨wait, found, rfl⟩⟩
  | queued | releasedAgain | releasedNone | gcKeyState | emitStats | timeout | clock | validating
  | returned | abandoned | breakerless | creating | failed | unvalidated | passed | factoryCalled
  | factorySettled | execRejected | execLate | lateDisposeSettled | breakerChanged =>
    exact .of_same rfl rfl rfl rfl

/-- A run that never opens the pool leaves a closed pool closed. -/
theorem staysClosed_run {actions : List (Action κ τ)} (core : Core s)
    (unopened : Action.start ∉ actions)
    (ran : Runs.run (step options) s actions = some next) : StaysClosed s next := by
  -- The steps compose, each in a state that satisfies the invariant of every run.
  induction actions generalizing s with
  | nil =>
    cases ran
    exact .of_same rfl rfl rfl rfl
  | cons action rest ih =>
    obtain ⟨middle, stepped, ran⟩ := Runs.run_cons_eq_some.mp ran
    have first := (step_effect stepped).staysClosed core.store
      fun same => unopened (same ▸ List.mem_cons_self)
    exact first.trans (ih (core_step core stepped)
      (fun inside => unopened (List.mem_cons_of_mem _ inside)) ran)

end RefPool.State
