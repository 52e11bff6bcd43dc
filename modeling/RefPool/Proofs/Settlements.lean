import RefPool.Proofs.Waiters

/-! Whatever reaches the gate of a pool, each waiter is settled once, and nobody is forgotten. -/

namespace RefPool

/-- What can reach the gate. -/
inductive GateCall where
  | reserve
  | unreserve
  /-- `waitForCapacity` parks one more acquire. -/
  | park (timeout : Duration) (now : Int)
  /-- `wakeCapacityWaiter`. -/
  | wake
  /-- The timer of a waiter fires. -/
  | expire (waiter : WaiterId)
  /-- The loop of `setClosed`. -/
  | close

/-- A gate with the calls of `finish` so far: on which waiter, and with what outcome. -/
structure LoggedGate where
  gate : Gate
  finished : List (WaiterId × WaiterPromise)

namespace LoggedGate

/-- Settle a waiter and log the call of `finish`, which the guard may prevent. -/
def settleWaiter (logged : LoggedGate) (w : WaiterId) (outcome : WaiterPromise) : LoggedGate :=
  match logged.gate.waiters[w]? with
  | none => logged
  | some waiter =>
    if waiter.settled then logged
    else
      { gate := logged.gate.settleWaiter w outcome
        finished := logged.finished ++ [(w, outcome)] }

/-- Wake the oldest waiter. -/
def wakeCapacityWaiter (logged : LoggedGate) : LoggedGate :=
  match logged.gate.capacityWaiters with
  | [] => logged
  | w :: rest =>
    { logged with gate := { logged.gate with capacityWaiters := rest } }.settleWaiter w .resolved

/-- Reject the parked waiters one after the other, oldest first. -/
def rejectWaiters (logged : LoggedGate) (error : PoolError) : LoggedGate :=
  logged.gate.capacityWaiters.foldl (fun logged w =>
    { logged with
      gate := { logged.gate with capacityWaiters := logged.gate.capacityWaiters.tail }
    }.settleWaiter w (.rejected error)) logged

/-- Let one call reach the gate. -/
def call (logged : LoggedGate) : GateCall → LoggedGate
  | .reserve => { logged with gate := logged.gate.reserve }
  | .unreserve => { logged with gate := logged.gate.unreserve }
  | .park timeout now => { logged with gate := logged.gate.park timeout now }
  | .wake => logged.wakeCapacityWaiter
  | .expire w => logged.settleWaiter w (.rejected .acquireTimeout)
  | .close => logged.rejectWaiters .poolClosed

variable {logged : LoggedGate} {w : WaiterId} {outcome : WaiterPromise}

/-! ### The log does not change what the gate does -/

@[simp] theorem settleWaiter_gate (logged : LoggedGate) (w : WaiterId) (outcome : WaiterPromise) :
    (logged.settleWaiter w outcome).gate = logged.gate.settleWaiter w outcome := by
  -- Neither writes to the gate where the waiter is unknown or has settled.
  unfold settleWaiter
  cases found : logged.gate.waiters[w]? with
  | none => simp [Gate.settleWaiter, found]
  | some waiter => cases flagged : waiter.settled <;> simp [Gate.settleWaiter, found, flagged]

@[simp] theorem wakeCapacityWaiter_gate (logged : LoggedGate) :
    logged.wakeCapacityWaiter.gate = logged.gate.wakeCapacityWaiter := by
  -- The same waiter is taken from the same queue.
  unfold wakeCapacityWaiter
  cases queue : logged.gate.capacityWaiters with
  | nil => simp [Gate.wakeCapacityWaiter, queue]
  | cons w rest => simp [Gate.wakeCapacityWaiter, queue]

@[simp] theorem rejectWaiters_gate (logged : LoggedGate) (error : PoolError) :
    (logged.rejectWaiters error).gate = logged.gate.rejectWaiters error := by
  -- Each turn of the loop does to the gate what it does without the log.
  unfold rejectWaiters Gate.rejectWaiters
  refine (List.foldl_hom LoggedGate.gate fun logged w => ?_).symm
  rw [settleWaiter_gate]

/-! ### What the log says -/

/-- The log holds the settled waiters, each once, and the queue the others in parking order. -/
structure Exact (logged : LoggedGate) : Prop where
  sound : logged.gate.Sound
  ordered : logged.gate.capacityWaiters.Pairwise (· < ·)
  cleared : ∀ (w : WaiterId) waiter, logged.gate.waiters[w]? = some waiter →
    waiter.settled = true → waiter.timer = none
  written : ∀ (w : WaiterId) outcome, (w, outcome) ∈ logged.finished ↔
    ∃ waiter, logged.gate.waiters[w]? = some waiter ∧ waiter.settled = true ∧
      waiter.promise = outcome
  once : (logged.finished.map Prod.fst).Nodup

/-- A new gate has settled nobody. -/
theorem exact_empty : Exact ⟨.empty, []⟩ where
  -- The log and the queue are empty.
  sound := Gate.sound_empty
  ordered := List.Pairwise.nil
  cleared := by simp [Gate.empty]
  written := by simp [Gate.empty]
  once := List.nodup_nil

namespace Exact

/-- Settling a waiter is logged when the waiter is queued, and does nothing otherwise. -/
theorem settle_cases (exact : logged.Exact) (w : WaiterId) (outcome : WaiterPromise) :
    (w ∉ logged.gate.capacityWaiters ∧ logged.settleWaiter w outcome = logged) ∨
      (w ∈ logged.gate.capacityWaiters ∧ logged.settleWaiter w outcome =
        { gate := logged.gate.settleWaiter w outcome
          finished := logged.finished ++ [(w, outcome)] }) := by
  -- What is queued has not been settled, and what is not queued has been, or does not exist.
  by_cases queued : w ∈ logged.gate.capacityWaiters
  · obtain ⟨waiter, found, -, unsettled⟩ := exact.sound.pending queued
    exact .inr ⟨queued, by simp [settleWaiter, found, unsettled]⟩
  · refine .inl ⟨queued, ?_⟩
    unfold settleWaiter
    split
    · rfl
    · rename_i waiter found
      rw [if_pos]
      rw [exact.sound.settled w waiter found, ne_eq, ← exact.sound.queued w waiter found]
      exact queued

/-- Settling a waiter keeps the log exact. -/
theorem settle (exact : logged.Exact) (w : WaiterId) (final : outcome ≠ .pending) :
    (logged.settleWaiter w outcome).Exact := by
  rcases exact.settle_cases w outcome with ⟨-, same⟩ | ⟨queued, same⟩
  · rw [same]
    exact exact
  obtain ⟨waiter, found, -, unsettled⟩ := exact.sound.pending queued
  rw [same]
  have settled : logged.gate.settleWaiter w outcome = { logged.gate with
      waiters := logged.gate.waiters.modify w fun _ =>
        { promise := outcome, timer := none, settled := true }
      capacityWaiters := logged.gate.capacityWaiters.erase w } := exact.sound.settle_queued queued
  constructor
  · exact exact.sound.settle w final
  · simp only [settled]
    exact exact.ordered.sublist List.erase_sublist
  · simp only [settled]
    intro other record read flagged
    rcases Arena.getElem?_modify_cases read with ⟨-, old, -, rfl⟩ | ⟨-, before⟩
    · rfl
    · exact exact.cleared other record before flagged
  -- The new line is about the waiter that settles, and the lines about the others stay true.
  · intro other answer
    simp only [settled, List.mem_append, List.mem_singleton, Prod.mk.injEq]
    by_cases here : w = other
    · subst here
      rw [Arena.getElem?_modify_self _ found, exact.written]
      constructor
      · rintro (⟨record, read, flagged, -⟩ | ⟨-, rfl⟩)
        · cases found.symm.trans read
          simp [unsettled] at flagged
        · exact ⟨_, rfl, rfl, rfl⟩
      · rintro ⟨_, ⟨⟩, -, rfl⟩
        exact .inr ⟨rfl, rfl⟩
    · rw [Arena.getElem?_modify_other _ _ here, exact.written]
      simp [Ne.symm here]
  -- Nothing was logged about a waiter that was still queued.
  · rw [List.map_append, List.map_singleton]
    refine List.nodup_append.mpr ⟨exact.once, List.nodup_singleton _, ?_⟩
    rintro other inside _ new rfl
    rw [List.mem_singleton] at new
    subst new
    obtain ⟨⟨_, answer⟩, line, rfl⟩ := List.mem_map.mp inside
    obtain ⟨record, read, flagged, -⟩ := (exact.written _ answer).mp line
    rw [found, Option.some.injEq] at read
    subst read
    simp [unsettled] at flagged

/-- Taking the first waiter off the queue before settling it makes no difference. -/
theorem settle_first (exact : logged.Exact) (outcome : WaiterPromise) {rest : List WaiterId}
    (queue : logged.gate.capacityWaiters = w :: rest) :
    { logged with gate := { logged.gate with capacityWaiters := rest } }.settleWaiter w outcome =
      logged.settleWaiter w outcome ∧
      (logged.settleWaiter w outcome).gate.capacityWaiters = rest := by
  -- The guard reads the waiter alone, and the gate is the same either way.
  obtain ⟨same, popped⟩ := exact.sound.settle_first outcome queue
  obtain ⟨waiter, found, -, unsettled⟩ := exact.sound.pending (w := w) (by simp [queue])
  refine ⟨?_, by rw [settleWaiter_gate]; exact popped⟩
  simp [settleWaiter, found, unsettled, same]

/-- Waking logs the oldest waiter, if there is one, and nobody else. -/
theorem wake_finished (exact : logged.Exact) :
    logged.wakeCapacityWaiter.finished = logged.finished ++
      (logged.gate.capacityWaiters.head?.map fun w => (w, WaiterPromise.resolved)).toList := by
  unfold wakeCapacityWaiter
  cases queue : logged.gate.capacityWaiters with
  | nil => simp
  | cons w rest =>
    have queued : w ∈ logged.gate.capacityWaiters := by simp [queue]
    simp only [(exact.settle_first _ queue).1]
    -- The waiter at the head of the queue has not been settled yet.
    rcases exact.settle_cases w .resolved with ⟨unqueued, -⟩ | ⟨-, same⟩
    · exact absurd queued unqueued
    · simp [same]

/-- Waking keeps the log exact. -/
theorem wake (exact : logged.Exact) : logged.wakeCapacityWaiter.Exact := by
  -- The first in the queue is settled, which takes it out of it.
  unfold wakeCapacityWaiter
  split
  · exact exact
  · rename_i w rest queue
    rw [(exact.settle_first _ queue).1]
    exact exact.settle w (by simp)

/-- Rejecting all waiters keeps the log exact. -/
theorem reject (exact : logged.Exact) (error : PoolError) :
    (logged.rejectWaiters error).Exact := by
  -- Each turn of the loop settles the first waiter left.
  suffices kept : ∀ (queue : List WaiterId) (logged : LoggedGate), logged.Exact →
      logged.gate.capacityWaiters = queue → (queue.foldl (fun logged w =>
        { logged with
          gate := { logged.gate with capacityWaiters := logged.gate.capacityWaiters.tail }
        }.settleWaiter w (.rejected error)) logged).Exact from kept _ logged exact rfl
  intro queue
  induction queue with
  | nil => exact fun logged exact _ => exact
  | cons w rest ih =>
    intro logged exact queue
    obtain ⟨same, popped⟩ := exact.settle_first (.rejected error) queue
    rw [List.foldl_cons, queue, List.tail_cons, same]
    exact ih _ (exact.settle w (by simp)) popped

/-- Parking one more acquire keeps the log exact. -/
theorem park (exact : logged.Exact) (timeout : Duration) (now : Int) :
    (⟨logged.gate.park timeout now, logged.finished⟩ : LoggedGate).Exact where
  sound := exact.sound.park timeout now
  -- The new waiter comes after all the others.
  ordered := by
    refine List.pairwise_append.mpr ⟨exact.ordered, List.pairwise_singleton _ _, ?_⟩
    intro w queued other new
    rw [List.mem_singleton.mp new]
    exact exact.sound.known w queued
  cleared := by
    intro w waiter found flagged
    rcases Arena.getElem?_push_cases found with ⟨-, rfl⟩ | before
    · cases flagged
    · exact exact.cleared w waiter before flagged
  written := by
    intro w outcome
    rw [exact.written]
    constructor
    · rintro ⟨waiter, found, flagged, same⟩
      exact ⟨waiter, Arena.getElem?_push_of_some _ found, flagged, same⟩
    · rintro ⟨waiter, found, flagged, same⟩
      rcases Arena.getElem?_push_cases found with ⟨-, rfl⟩ | before
      · cases flagged
      · exact ⟨waiter, before, flagged, same⟩
  once := exact.once

/-- Whatever reaches the gate keeps the log exact. -/
theorem call (exact : logged.Exact) (reached : GateCall) : (logged.call reached).Exact := by
  -- Each of the calls has its law.
  cases reached with
  | reserve | unreserve =>
    exact ⟨exact.sound.setReserved _, exact.ordered, exact.cleared, exact.written, exact.once⟩
  | park timeout now => exact exact.park timeout now
  | wake => exact exact.wake
  | expire w => exact exact.settle w (by simp)
  | close => exact exact.reject .poolClosed

/-- However many calls reach the gate, the log stays exact. -/
theorem calls (exact : logged.Exact) (reached : List GateCall) :
    (reached.foldl LoggedGate.call logged).Exact := by
  -- The calls come one after the other.
  induction reached generalizing logged with
  | nil => exact exact
  | cons first rest ih => exact ih (exact.call first)

end Exact

/-- Some calls lead a gate to another, whatever has been logged before. -/
def Reaches (gate next : Gate) : Prop :=
  ∃ calls : List GateCall, ∀ finished, (calls.foldl call ⟨gate, finished⟩).gate = next

namespace Reaches

variable {gate middle next : Gate}

/-- No call at all leaves the gate as it is. -/
theorem refl (gate : Gate) : Reaches gate gate :=
  -- No call is needed.
  ⟨[], fun _ => rfl⟩

/-- One call leads to what it makes of the gate. -/
theorem single (reached : GateCall)
    (made : ∀ finished, (call ⟨gate, finished⟩ reached).gate = next) : Reaches gate next :=
  -- The one call is the list of calls.
  ⟨[reached], made⟩

/-- Calls after calls are calls. -/
theorem trans (first : Reaches gate middle) (second : Reaches middle next) :
    Reaches gate next := by
  obtain ⟨calls, led⟩ := first
  obtain ⟨more, led'⟩ := second
  refine ⟨calls ++ more, fun finished => ?_⟩
  -- The later calls start from the gate and the log that the earlier ones leave.
  rw [List.foldl_append, ← led' (calls.foldl call ⟨gate, finished⟩).finished, ← led finished]

/-- Waking is a call. -/
theorem wake (gate : Gate) : Reaches gate gate.wakeCapacityWaiter :=
  -- The log does not bear on the gate.
  single .wake fun _ => wakeCapacityWaiter_gate _

/-- Closing is a call. -/
theorem close (gate : Gate) : Reaches gate (gate.rejectWaiters .poolClosed) :=
  -- The log does not bear on the gate.
  single .close fun _ => rejectWaiters_gate _ _

/-- Giving a reservation back is two calls. -/
theorem releaseReservation (gate : Gate) : Reaches gate gate.releaseReservation :=
  -- First the number, then the wakeup.
  (single .unreserve fun _ => rfl).trans (wake gate.unreserve)

end Reaches

end LoggedGate

namespace State

open LoggedGate (Reaches)

variable {κ τ : Type} [DecidableEq κ] {options : PoolOptions} {s next : State κ τ}

/-- The calls of `finish` along a run to a state, whatever calls reached the gate in its steps. -/
inductive Finishes (options : PoolOptions) : State κ τ → List (WaiterId × WaiterPromise) → Prop
  | init : Finishes options (init options) []
  | step {s next : State κ τ} {finished finished' : List (WaiterId × WaiterPromise)}
      (action : Action κ τ) (calls : List GateCall) (earlier : Finishes options s finished)
      (stepped : s.step options action = some next)
      (called : calls.foldl LoggedGate.call ⟨s.toGate, finished⟩ = ⟨next.toGate, finished'⟩) :
      Finishes options next finished'

/-- Each waiter has been settled at most once, and those that have not been are in the queue. -/
structure SettledOnce (s : State κ τ) (finished : List (WaiterId × WaiterPromise)) : Prop where
  /-- No waiter was resolved or rejected twice. -/
  once : (finished.map Prod.fst).Nodup
  /-- Who was settled, and how. -/
  written : ∀ (w : WaiterId) outcome, (w, outcome) ∈ finished ↔
    ∃ waiter, s.waiters[w]? = some waiter ∧ waiter.settled = true ∧ waiter.promise = outcome
  /-- The queue holds exactly the waiters that have not been settled. -/
  queued : ∀ w, w ∈ s.capacityWaiters ↔
    ∃ waiter, s.waiters[w]? = some waiter ∧ waiter.settled = false
  /-- It is in parking order, without duplicates. -/
  ordered : s.capacityWaiters.Pairwise (· < ·)
  cleared : ∀ (w : WaiterId) waiter, s.waiters[w]? = some waiter → waiter.settled = true →
    waiter.timer = none
  /-- A call of `wakeCapacityWaiter` settles the oldest waiter, if there is one, and no other. -/
  woken : (LoggedGate.wakeCapacityWaiter ⟨s.toGate, finished⟩).finished =
    finished ++ (s.capacityWaiters.head?.map fun w => (w, WaiterPromise.resolved)).toList
  shut : s.closed = true → s.capacityWaiters = []

omit [DecidableEq κ] in
/-- An exact log says all that. -/
theorem settledOnce_of_exact {finished : List (WaiterId × WaiterPromise)}
    (exact : LoggedGate.Exact ⟨s.toGate, finished⟩)
    (waiting : Waiting s.toGate s.acquires s.closed) : SettledOnce s finished where
  once := exact.once
  written := exact.written
  queued := by
    -- A queued waiter exists and is pending, and pending is what unsettled is.
    intro w
    constructor
    · intro queued
      obtain ⟨waiter, found, -, unsettled⟩ := exact.sound.pending queued
      exact ⟨waiter, found, unsettled⟩
    · rintro ⟨waiter, found, unsettled⟩
      rw [exact.sound.queued w waiter found]
      by_contra ended
      rw [(exact.sound.settled w waiter found).mpr ended] at unsettled
      cases unsettled
  ordered := exact.ordered
  cleared := exact.cleared
  woken := exact.wake_finished
  shut := waiting.shut

/-- A turn of the reservation loop acts on the gate by calls. -/
theorem SlotEffect.reaches {a : AcquireId} (effect : SlotEffect options s a next) :
    Reaches s.toGate next.toGate := by
  -- A slot is reserved, or the acquire parks, or the gate is left alone.
  cases effect with
  | unbounded | refused | exhausted => exact .refl _
  | reserved | evicted => exact .single .reserve fun _ => rfl
  | parked => exact .single (.park options.timeout s.now) fun _ => rfl

/-- `obtain` from the orphan lookup on acts on the gate by calls. -/
theorem MissEffect.reaches {a : AcquireId} {key : κ} (effect : MissEffect options s a key next) :
    Reaches s.toGate next.toGate := by
  -- Only the reservation loop remains to be looked at.
  cases effect with
  | resurrected | refused => exact .refl _
  | slot _ _ _ effect => exact effect.reaches

/-- Dropping a reference acts on the gate by calls. -/
theorem ReleaseEffect.reaches {e : EntryId} (effect : ReleaseEffect s e next) :
    Reaches s.toGate next.toGate := by
  -- Only an entry that becomes idle wakes somebody.
  cases effect with
  | ignored | dropped | retired => exact .refl _
  | freed => exact .wake _

/-- Every step acts on the gate by calls. -/
theorem Effect.reaches {action : Action κ τ} (wf : s.toStore.WellFormed)
    (effect : Effect options s action next) : Reaches s.toGate next.toGate := by
  -- Most steps leave the gate alone.
  cases effect with
  | released h handle next found holding effect => exact effect.reaches
  | releasedKey key e next bound effect => exact effect.reaches
  | drain =>
    rw [(drain_frame wf).1]
    exact .close _
  -- `stop` closes before the drain closes again.
  | stop =>
    have drained := (drain_frame (s := s.setClosed.stopTimers) wf).1
    show Reaches _ s.setClosed.stopTimers.drain.toGate
    rw [drained]
    exact (Reaches.close _).trans (.close _)
  | sweep =>
    exact (sweep_rule options (P := fun next => Reaches s.toGate next.toGate) wf
      (fun _ _ _ _ reached _ _ _ => reached.trans (.wake _)) (fun _ _ => id) (.refl _)).2
  | timeout w => exact .single (.expire w) fun _ => LoggedGate.settleWaiter_gate _ _ _
  | missed a acquire after next called phase turn absent effect => exact effect.reaches
  | discarded a acquire live next called phase effect => exact effect.reaches
  | resumed a acquire w waiter next called phase found woken effect => exact effect.reaches
  | breakerless | execRejected | execLate => exact .releaseReservation _
  | inserted => exact .single .unreserve fun _ => rfl
  | shared | queued | releasedAgain | releasedNone | start | gcKeyState | emitStats | clock
  | validating | returned | abandoned | creating | delivered | failed | drained | unvalidated
  | passed | refuted | factoryCalled | factorySettled | disposeSettled | lateDisposeSettled
  | breakerChanged => exact .refl _

/-- Every log of a run is exact. -/
theorem Finishes.exact {finished : List (WaiterId × WaiterPromise)}
    (logs : Finishes options s finished) : LoggedGate.Exact ⟨s.toGate, finished⟩ := by
  -- The calls of each step keep the log of the steps before it exact.
  induction logs with
  | init => exact LoggedGate.exact_empty
  | step action calls earlier stepped called ih => exact called ▸ ih.calls calls

/-- A step goes on with the log of the steps before it. -/
theorem Finishes.extend {action : Action κ τ} {finished : List (WaiterId × WaiterPromise)}
    (logs : Finishes options s finished) (wf : s.toStore.WellFormed)
    (stepped : s.step options action = some next) :
    ∃ finished', Finishes options next finished' := by
  -- The step is one of calls on the gate, whose log continues the one before.
  obtain ⟨calls, led⟩ := (step_effect stepped).reaches wf
  exact ⟨_, .step action calls logs stepped (by rw [← led finished])⟩

/-- In every run each waiter is settled at most once, and those that are not are queued. -/
theorem settledOnce_throughout (options : PoolOptions) (actions : List (Action κ τ)) :
    Runs.Throughout (step options)
      (fun s => (∃ finished, Finishes options s finished) ∧
        ∀ finished, Finishes options s finished → SettledOnce s finished)
      (init options) actions := by
  -- The queue agrees with the calls parked on it, and the log grows along with the run.
  have kept : Runs.Throughout (step options)
      (fun s => (Core s ∧ Waiting s.toGate s.acquires s.closed) ∧
        ∃ finished, Finishes options s finished) (init options) actions :=
    Runs.throughout_of_invariant _
      (fun s action next ⟨⟨core, waiting⟩, finished, logs⟩ stepped =>
        ⟨⟨core_step core stepped, (step_effect stepped).waiting core waiting⟩,
          logs.extend core.store stepped⟩)
      ⟨⟨core_init options, waiting_init options⟩, [], .init⟩ actions
  exact kept.mono fun s ⟨⟨_, waiting⟩, logged⟩ =>
    ⟨logged, fun finished logs => settledOnce_of_exact logs.exact waiting⟩

end State

end RefPool
