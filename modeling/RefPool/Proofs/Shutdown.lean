import RefPool.Proofs.Breaker
import RefPool.Proofs.Handover
import RefPool.Proofs.Leaving
import RefPool.Proofs.Quiescence
import RefPool.Proofs.References
import RefPool.Proofs.Reservations

/-! A pool that was closed for good and has come to rest has disposed of everything it was given. -/

namespace RefPool

/-- Whether a call awaits `options.validate`, or the disposal of a resource created too late. -/
def Phase.outside : Phase → Bool
  | .validating _ | .closing => true
  | _ => false

namespace State

variable {κ τ : Type} [DecidableEq κ] {options : PoolOptions} {s : State κ τ} {a : AcquireId}
  {acquire : Acquire κ}

/-- Nothing outside the pool is outstanding: no handle, and no call of a callback or a breaker. -/
structure AtRest (s : State κ τ) : Prop where
  released : ∀ handle ∈ s.handles, handle.released = true
  settled : s.Settled
  called : ∀ acquire ∈ s.acquires, acquire.phase.outside = false
  disposed : ∀ entry ∈ s.heap, entry.disposing = true → entry.disposed = true

omit [DecidableEq κ] in
/-- Being at rest is a conjunction. -/
theorem atRest_iff : s.AtRest ↔ (∀ handle ∈ s.handles, handle.released = true) ∧ s.Settled ∧
    (∀ acquire ∈ s.acquires, acquire.phase.outside = false) ∧
    ∀ entry ∈ s.heap, entry.disposing = true → entry.disposed = true :=
  -- The fields are the conjuncts.
  ⟨fun ⟨released, settled, called, disposed⟩ => ⟨released, settled, called, disposed⟩,
    fun ⟨released, settled, called, disposed⟩ => ⟨released, settled, called, disposed⟩⟩

/-- Whether nothing is outstanding can be checked. -/
instance (s : State κ τ) : Decidable s.AtRest := by
  have settled : Decidable s.Settled := by
    unfold Settled
    infer_instance
  exact decidable_of_iff _ atRest_iff.symm

/-- What a shutdown leaves behind. -/
structure ShutDown (options : PoolOptions) (s : State κ τ) : Prop where
  /-- Every resource that the factory resolved with was passed to `options.dispose` once. -/
  disposedOnce : (s.disposeCalls.map Prod.fst).Perm s.made
  entries : s.entries.items = []
  orphans : s.orphans.items = []
  capacityWaiters : s.capacityWaiters = []
  pending : s.pending.items = []
  mutexes : s.mutexes.items = []
  reserved : 0 < options.max → s.reserved = 0

omit [DecidableEq κ] in
/-- Being shut down is a conjunction. -/
theorem shutDown_iff : s.ShutDown options ↔
    (s.disposeCalls.map Prod.fst).Perm s.made ∧ s.entries.items = [] ∧ s.orphans.items = [] ∧
    s.capacityWaiters = [] ∧ s.pending.items = [] ∧ s.mutexes.items = [] ∧
    (0 < options.max → s.reserved = 0) :=
  -- The fields are the conjuncts.
  ⟨fun ⟨once, entries, orphans, waiters, pending, mutexes, reserved⟩ =>
      ⟨once, entries, orphans, waiters, pending, mutexes, reserved⟩,
    fun ⟨once, entries, orphans, waiters, pending, mutexes, reserved⟩ =>
      ⟨once, entries, orphans, waiters, pending, mutexes, reserved⟩⟩

/-- Whether a pool is shut down can be checked. -/
instance [DecidableEq τ] (options : PoolOptions) (s : State κ τ) :
    Decidable (s.ShutDown options) :=
  decidable_of_iff _ shutDown_iff.symm

/-! ### The calls -/

/-- At rest a call that goes on neither by itself nor from outside has settled or waits its turn. -/
theorem Quiescent.settled_or_queued (quiet : Quiescent options s) (core : Core s)
    (waiting : Waiting s.toGate s.acquires s.closed) (shut : s.closed = true) (rest : s.AtRest)
    (called : s.acquires[a]? = some acquire) :
    acquire.phase.stage = .settled ∨
      ∃ after, acquire.phase = .queued after ∧ s.turnOf after = false := by
  -- Each phase that waits for something outside is excluded by what being at rest says of it.
  have stuck := quiet.stuck called
  have fits := core.phases a acquire called
  have inside := List.mem_of_getElem? called
  have none := rest.called acquire inside
  cases phase : acquire.phase with
  | queued after =>
    rw [phase] at stuck
    exact .inr ⟨after, rfl, stuck⟩
  | validating | closing => simp [phase, Phase.outside] at none
  | discarding live =>
    -- The disposal that the call waits for has settled.
    rw [phase] at stuck fits
    obtain ⟨entry, found, -, begun, -⟩ := fits
    have ended := rest.disposed entry (List.mem_of_getElem? found) begun
    simp [Stuck, waitResolved, found, ended] at stuck
  | parked w =>
    -- A closed pool has settled the promise of every waiter.
    rw [phase] at stuck
    have made := waiting.known acquire inside w (by rw [phase]; rfl)
    have found := List.getElem?_eq_getElem made
    have queued := (waiting.sound.queued w _ found).mpr (stuck _ found)
    simp [waiting.shut shut] at queued
  -- The breaker's call that this phase waits for has settled.
  | creating x =>
    obtain ⟨exec, found, outstanding, -⟩ := core.execs.started a acquire x called phase
    have ended := rest.settled.1 exec (List.mem_of_getElem? found)
    simp [outstanding, Outcome.isPending] at ended
  -- In these phases the call would go on by itself.
  | granted | returned | threw =>
    rw [phase] at stuck
    exact absurd stuck id
  | fulfilled | rejected => exact .inl rfl

/-- At rest every call has settled: the first of its key to wait would have its turn. -/
theorem Quiescent.calls_settled (quiet : Quiescent options s) (core : Core s)
    (waiting : Waiting s.toGate s.acquires s.closed) (shut : s.closed = true) (rest : s.AtRest)
    (t : Nat) (slot : Slot κ) (found : (s.acquires.map Acquire.slot)[t]? = some slot) :
    slot.isOpen = false := by
  -- Suppose that one is open: then there is a first of its key, whose predecessor is through.
  by_contra active
  obtain ⟨i, first, present, opened, -, ready⟩ :=
    core.chained.exists_first found (by simpa using active)
  obtain ⟨acquire, called, rfl⟩ : ∃ acquire, s.acquires[i]? = some acquire ∧
      acquire.slot = first := by simpa using present
  rcases quiet.settled_or_queued core waiting shut rest called with settled | ⟨after, phase, turn⟩
  · simp [Slot.isOpen, Acquire.slot, settled] at opened
  · cases after with
    | none => simp [turnOf] at turn
    | some p =>
      obtain ⟨before, behind, ended⟩ := ready p (by simp [Acquire.slot, phase, Phase.stage])
      obtain ⟨prior, calledPrior, rfl⟩ : ∃ prior, s.acquires[p]? = some prior ∧
          prior.slot = before := by simpa using behind
      -- The predecessor has settled, so the turn of the first has come.
      cases reached : prior.phase <;>
        simp_all [turnOf, Slot.isOpen, Acquire.slot, Phase.stage]

/-! ### The entries -/

/-- While no handle is out no key of a closed pool is bound. -/
theorem unbound_of_released (wf : s.toStore.WellFormed) (leaving : s.toStore.Leaving)
    (counted : Counted (· ≤ ·) s.heap s.handles)
    (released : ∀ handle ∈ s.handles, handle.released = true) (key : κ) :
    s.entries.get? key = none ∧ s.orphans.get? key = none := by
  -- Whatever a closed pool still binds is condemned, and what is condemned is held.
  constructor
  · cases live : s.entries.get? key with
    | none => rfl
    | some e =>
      obtain ⟨entry, found, promised⟩ := wf.live key e live
      have undisposed := (wf.sound e entry found).undisposed promised.undisposed
      have unheld := counted.unheld_of_released released found undisposed
      have held := promised.held (leaving.doomed e entry found (promised.key ▸ live))
      omega
  · cases orphaned : s.orphans.get? key with
    | none => rfl
    | some e =>
      obtain ⟨entry, found, promised⟩ := wf.orphaned key e orphaned
      have undisposed := (wf.sound e entry found).undisposed promised.undisposed
      have unheld := counted.unheld_of_released released found undisposed
      have held := promised.held
      omega

/-- While no key of a closed pool is bound every disposal has begun. -/
theorem undisposedResources_of_unbound (bound : s.toStore.Bound)
    (unbound : ∀ key, s.entries.get? key = none ∧ s.orphans.get? key = none) :
    undisposedResources s.heap = [] := by
  -- An undisposed entry would be bound to its key in one of the maps.
  rw [undisposedResources, List.map_eq_nil_iff, List.filter_eq_nil_iff]
  intro entry inside fresh
  obtain ⟨e, found⟩ := List.mem_iff_getElem?.mp inside
  obtain ⟨live, orphaned⟩ := unbound entry.key
  rcases bound e entry found (by simpa using fresh) with here | here
  · simp [live] at here
  · simp [orphaned] at here

/-! ### The shutdown -/

/-- What holds in a pool that was closed for good. -/
structure Closing (options : PoolOptions) (s : State κ τ) : Prop where
  core : Core s
  shut : s.closed = true
  leaving : s.toStore.Leaving
  counted : Counted (· ≤ ·) s.heap s.handles
  waiting : Waiting s.toGate s.acquires s.closed
  ledger : Ledger s
  handover : Handover s.execs s.factoryCalls
  booked : 0 < options.max → s.Booked

/-- A pool that was closed for good and has come to rest is shut down. -/
theorem Closing.shutDown (closing : s.Closing options) (rest : s.AtRest)
    (quiet : Quiescent options s) : s.ShutDown options := by
  obtain ⟨core, shut, leaving, counted, waiting, ledger, handover, booked⟩ := closing
  have settled := quiet.calls_settled core waiting shut rest
  have unbound := unbound_of_released core.store leaving counted rest.released
  obtain ⟨pending, mutexes⟩ := core.chained.drained settled
  refine
    { disposedOnce := ?_
      entries := OrderedMap.items_eq_nil_iff.mpr fun key => (unbound key).1
      orphans := OrderedMap.items_eq_nil_iff.mpr fun key => (unbound key).2
      capacityWaiters := waiting.shut shut
      pending, mutexes
      reserved := fun bounded => ?_ }
  · -- What is tracked was handed over, what was handed over was made, and nothing is undisposed.
    have tracked := ledger.tracked_perm
    rw [State.tracked, undisposedResources_of_unbound leaving.bound unbound,
      List.append_nil] at tracked
    exact tracked.trans (handover.settled rest.settled.1).symm
  -- No call is open, so none of them holds a reservation.
  · have none : reservations s.acquires = 0 := by
      refine List.countP_eq_zero.mpr fun acquire inside => ?_
      obtain ⟨i, called⟩ := List.mem_iff_getElem?.mp inside
      have ended := settled i acquire.slot (by simp [called])
      cases phase : acquire.phase <;>
        simp_all [Slot.isOpen, Acquire.slot, Phase.stage, Phase.reserving]
    rw [booked bounded, none]
    rfl

/-- A run that closes a pool once and for all leaves it closing, and builds no entry after that. -/
theorem closing_run {before after : List (Action κ τ)} {closing : Action κ τ}
    {called last : State κ τ} (undrained : ∀ action ∈ before, action ≠ .drain ∧ action ≠ .stop)
    (draining : closing = .drain ∨ closing = .stop) (unopened : Action.start ∉ after)
    (polite : Runs.Guarded (step options) SettlesAsFactory (init options)
      (before ++ closing :: after))
    (ran : Runs.run (step options) (init options) before = some called)
    (waited : Runs.run (step options) called (closing :: after) = some last) :
    last.Closing options ∧ last.heap.length = called.heap.length := by
  obtain ⟨shut, stepped, rest⟩ := Runs.run_cons_eq_some.mp waited
  have whole := Runs.run_append_eq_some.mpr ⟨called, ran, waited⟩
  have core := core_run ran
  -- The first drain finds every entry where it belongs, and leaves nothing live.
  have bound := (exact_of_undrained undrained ran).bound
  obtain ⟨⟨leaving, unarmed⟩, closed, length⟩ : (shut.toStore.Leaving ∧ shut.sweepTimer = false) ∧
      shut.closed = true ∧ shut.heap.length = called.heap.length := by
    rcases draining with rfl | rfl
    · cases stepped
      exact ⟨leaving_drain core.store bound, (staysClosed_drain core.store).2,
        (kept_drain core.store).length⟩
    · cases stepped
      exact ⟨leaving_drain (s := called.setClosed.stopTimers) core.store bound,
        (staysClosed_drain (s := called.setClosed.stopTimers) core.store).2,
        (kept_drain (s := called.setClosed.stopTimers) core.store).length⟩
  have stays := staysClosed_run (core_step core stepped) unopened rest
  -- The other invariants hold of the run as a whole.
  have invariant := polite.run_invariant
    (fun s : State κ τ => Core s ∧ Counted (· ≤ ·) s.heap s.handles ∧
      Waiting s.toGate s.acquires s.closed ∧ Handover s.execs s.factoryCalls)
    (fun s action next ⟨core, counted, waiting, handover⟩ met stepped =>
      ⟨core_step core stepped,
        (step_effect stepped).counted comparison_le core (.inr (by omega)) counted,
        (step_effect stepped).waiting core waiting,
        ((step_effect stepped).flow core.store).handover met handover⟩)
    ⟨core_init options, counted_init options, waiting_init options, .empty⟩ whole
  obtain ⟨final, counted, waiting, handover⟩ := invariant
  exact ⟨
    { core := final
      shut := stays.closed closed
      leaving := leaving_run (core_step core stepped) closed unarmed leaving unopened rest
      counted, waiting, handover
      ledger := (ledger_throughout options _).of_run whole
      booked := fun bounded => booked_run bounded whole },
    (stays.length closed).trans length⟩

/--
A pool that a run closes once and for all builds no entry after that.

Whenever nothing outside it is outstanding and nothing in it is left to run, it is shut down.
-/
theorem shutDown_complete (options : PoolOptions) (before after : List (Action κ τ))
    (closing : Action κ τ) {called last : State κ τ}
    (undrained : ∀ action ∈ before, action ≠ .drain ∧ action ≠ .stop)
    (draining : closing = .drain ∨ closing = .stop) (unopened : Action.start ∉ after)
    (polite : Runs.Guarded (step options) SettlesAsFactory (init options)
      (before ++ closing :: after))
    (ran : Runs.run (step options) (init options) before = some called)
    (waited : Runs.run (step options) called (closing :: after) = some last) :
    last.heap.length = called.heap.length ∧
      (last.AtRest → Quiescent options last → last.ShutDown options) := by
  -- What holds while the pool is closing is brought to its end by being at rest.
  obtain ⟨kept, length⟩ := closing_run undrained draining unopened polite ran waited
  exact ⟨length, fun rest quiet => kept.shutDown rest quiet⟩

/-- A drain rejects a parked acquire, and condemns an orphan again after its resurrection. -/
theorem shutDown_complete_resurrected :
    let options : PoolOptions := { max := 1 }
    let before : List (Action Nat Nat) :=
      [.acquire 7, .obtain 0, .create 0 .threw, .factoryCalled 0, .factorySettled 0 (some 70),
        .execSettled 0 (some 70), .deliver 0, .acquire 8, .obtain 1]
    let after : List (Action Nat Nat) :=
      [.resume 1, .deliver 1, .acquire 7, .obtain 2, .deliver 2, .stop, .releaseHandle 0,
        .releaseHandle 1, .disposeSettled 0, .drained 0, .drained 1]
    ∃ last, Runs.run (step options) (init options) (before ++ .drain :: after) = some last ∧
      last.ShutDown options := by
  -- The pieces of this run settle everything, and leave nothing that could go on.
  intro options before after
  obtain ⟨last, ran⟩ := Option.isSome_iff_exists.mp (show (Runs.run (step options)
    (init options) (before ++ .drain :: after)).isSome = true by decide)
  obtain ⟨called, ran', waited⟩ := Runs.run_append_eq_some.mp ran
  have ended : ∀ last ∈ Runs.run (step options) (init options) (before ++ .drain :: after),
      last.AtRest ∧ Quiescent options last := by decide
  obtain ⟨rest, quiet⟩ := ended last ran
  exact ⟨last, ran, (shutDown_complete options before after .drain (by simp [before]) (.inl rfl)
    (by simp [after]) (by decide) ran' waited).2 rest quiet⟩

/-- A drain finds an acquire queued on its mutex: nothing is outstanding, yet its key is marked. -/
theorem shutDown_running :
    let options : PoolOptions := { max := 1 }
    let actions : List (Action Nat Nat) := [.acquire 7, .drain]
    Runs.Guarded (step options) SettlesAsFactory (init options) actions ∧
      ¬ ∀ last ∈ Runs.run (step options) (init options) actions,
        last.AtRest → last.ShutDown options := by
  -- The acquire is queued, and counts as pending, when nothing else is outstanding.
  decide

end State

end RefPool
