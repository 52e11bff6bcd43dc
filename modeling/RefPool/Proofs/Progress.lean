import RefPool.Proofs.Lifecycle
import RefPool.Proofs.Neat
import RefPool.Proofs.Shutdown
import RefPool.Proofs.Turns
import RefPool.Proofs.Wakeup

/-! A pool that is not drained, and whose resources pass validation, serves all calls it can. -/

namespace RefPool

/-- Nobody drains the pool, and `options.validate` answers yes where it is asked. -/
def Action.Calm {κ τ : Type} : Action κ τ → Prop
  | .drain | .stop => False
  | .validated _ verdict => verdict = some true
  | _ => True

/-- Whether a step is calm can be checked. -/
instance {κ τ : Type} (action : Action κ τ) : Decidable action.Calm := by
  cases action <;> unfold Action.Calm <;> infer_instance

/-- A calm step drains nothing. -/
theorem Action.Calm.open_ {κ τ : Type} {action : Action κ τ} (calm : action.Calm) :
    action ≠ .drain ∧ action ≠ .stop := by
  -- Both actions are excluded by name.
  constructor <;> rintro rfl <;> exact calm

/-- While a call is on its way to a rejection its key has no entry, and no disposal is awaited. -/
def Phase.Bare {κ τ : Type} [DecidableEq κ] (store : Store κ τ) (key : κ) : Phase → Prop
  | .threw _ => store.entries.get? key = none
  | .closing => False
  | _ => True

namespace State

variable {κ τ : Type} [DecidableEq κ] {options : PoolOptions} {s next : State κ τ}
  {a : AcquireId} {acquire : Acquire κ} {key : κ} {e : EntryId} {action : Action κ τ}

/-! ### What a failed call leaves behind -/

/-- A step builds no entry, or a creation succeeds and its entry is inserted. -/
theorem Effect.same_or_inserted (effect : Effect options s action next) (core : Core s) :
    next.heap.length = s.heap.length ∨
      ∃ (a : Nat) (acquire : Acquire κ) (x : ExecId), s.acquires[a]? = some acquire ∧
        acquire.phase = .creating x ∧
        next.acquires[a]? = some { acquire with phase := .returned s.heap.length } ∧
        ∀ (e : Nat) (entry : Entry κ τ), next.heap[e]? = some entry → s.heap.length ≤ e →
          entry.key = acquire.key ∧ entry.disposing = false := by
  -- Entries are added at the end of the heap, and nowhere else.
  have wf := core.store
  have dropped {e : EntryId} {s next : State κ τ} (effect : ReleaseEffect s e next) :
      next.heap.length = s.heap.length := by
    rcases effect.heap with ⟨-, rfl⟩ | ⟨entry, assign, -, -, -, heap, -⟩
    · rfl
    · rw [heap, List.length_modify]
  cases effect with
  | shared key e | delivered a acquire e =>
    refine .inl ?_
    show (s.toStore.checkout e).heap.length = _
    rw [Store.checkout_heap, List.length_modify]
  | released h handle next found holding effect =>
    have same := dropped effect
    exact .inl same
  | releasedKey key e next bound effect => exact .inl (dropped effect)
  | drain => exact .inl (kept_drain wf).length
  | stop => exact .inl (kept_drain (s := s.setClosed.stopTimers) wf).length
  | sweep => exact .inl (kept_sweep wf).length
  | missed a acquire after next called phase turn absent effect => exact .inl effect.kept.length
  | discarded a acquire live next called phase effect => exact .inl effect.kept.length
  | resumed a acquire w waiter next called phase found woken effect =>
    exact .inl effect.kept.length
  | refuted a acquire live =>
    have kept : s.toStore.Kept ((s.toStore.removeEntry live).beginDispose live) := .discard live
    exact .inl kept.length
  | disposeSettled e entry =>
    refine .inl ?_
    rw [finishDispose_heap, List.length_modify]
  -- The call that waited for its exec gets the new entry, which bears its key.
  | inserted x exec resource found outstanding =>
    obtain ⟨acquire, called, same, phase⟩ := core.execs.awaited x exec found outstanding
    refine .inr ⟨exec.acquire, acquire, x, called, phase, Arena.getElem?_modify_self _ called,
      fun e entry read later => ?_⟩
    have read : (s.toStore.insert exec.key resource s.now).heap[e]? = some entry := read
    rw [Store.insert_heap] at read
    rcases Arena.getElem?_push_cases read with ⟨-, rfl⟩ | before
    · exact ⟨same.symm, rfl⟩
    · exact absurd (List.getElem?_eq_some_iff.mp before).1 (Nat.not_lt.mpr later)
  | queued | releasedAgain | releasedNone | start | gcKeyState | emitStats | timeout | clock
  | validating | returned | abandoned | breakerless | creating | failed | drained | unvalidated
  | passed | factoryCalled | factorySettled | execRejected | execLate | lateDisposeSettled
  | breakerChanged => exact .inl rfl

/-- Before the first drain a key comes to be bound only when a creation of the key succeeds. -/
theorem Effect.bound_back (effect : Effect options s action next) (core : Core s)
    (core' : Core next) (undrained : Undrained s.heap s.acquires) (accurate : s.toStore.Exact)
    (bound : next.entries.get? key = some e) :
    s.entries.get? key = some e ∨
      ∃ (a : Nat) (acquire : Acquire κ) (x : ExecId), s.acquires[a]? = some acquire ∧
        acquire.phase = .creating x ∧ acquire.key = key ∧
        next.acquires[a]? = some { acquire with phase := .returned s.heap.length } := by
  obtain ⟨entry, found, promised⟩ := core'.store.live key e bound
  -- The entry that is bound was there before, or it is the one that was built.
  cases before : s.heap[e]? with
  | some old =>
    obtain ⟨after, present, follows⟩ := (effect.grows core.store).entry e old before
    cases found.symm.trans present
    refine .inl ?_
    have fresh : old.disposing = false := Bool.eq_false_iff.mpr fun begun => by
      have undisposed := promised.undisposed
      rw [follows.disposing begun] at undisposed
      cases undisposed
    have live := live_of_undrained core.store undrained accurate before fresh
    rwa [← follows.key, promised.key] at live
  | none =>
    have later := List.getElem?_eq_none_iff.mp before
    rcases effect.same_or_inserted core with same | ⟨a, acquire, x, called, phase, moved, fresh⟩
    · have inside := (List.getElem?_eq_some_iff.mp found).1
      omega
    · exact .inr ⟨a, acquire, x, called, phase,
        (fresh e entry found later).1.symm.trans promised.key, moved⟩

/-- A call that waits for a slot may fail while its key has no entry. -/
theorem bare_of_goes {store : Store κ τ} {before phase : Phase} (goes : before.Goes phase)
    (waiting : before.isWaiting = true) (absent : store.entries.get? key = none) :
    phase.Bare store key := by
  -- What fails has had no entry, and what goes on relies on nothing here.
  cases goes with
  | late => cases waiting
  | refused | breakerless | failed | closed => exact absent
  | examined | refuted | found | granted | parked | creating | inserted | fulfilled
  | rejected => trivial

/-- The call that goes on in a calm step of an open pool fails only if it found no entry. -/
theorem Effect.goes_bare (effect : Effect options s action next) (core : Core s)
    (opened : s.closed = false) (calm : action.Calm) (called : s.acquires[a]? = some acquire)
    (held : acquire.phase.Bare s.toStore acquire.key) (own : s.actor action = some a)
    {after : Acquire κ} (read : next.acquires[a]? = some after) :
    after.phase.Bare s.toStore acquire.key := by
  have reached {phase : Phase} (moved : next.acquires = s.acquires.modify a fun acquire =>
      { acquire with phase }) : after.phase = phase := by
    rw [moved, Arena.getElem?_modify_self _ called, Option.some.injEq] at read
    rw [← read]
  have fits := core.phases a acquire called
  cases effect with
  -- A call that is new, or goes on with an entry, relies on nothing.
  | shared | queued =>
    cases own
    simp at called
  | validating b | returned b | passed b | refuted b | creating b | delivered b | failed b =>
    cases own
    rw [reached rfl]
    trivial
  -- The call relied on the absence of its key, or has looked it up just now.
  | missed b other p next called' phase turn absent effect =>
    cases own
    cases called.symm.trans called'
    have early : acquire.phase.isEarly = true := by rw [phase]; rfl
    obtain ⟨phase', goes, moved⟩ := effect.goes early
    rw [reached moved]
    exact bare_of_goes goes (by rw [phase]; rfl) (undisposed_entries_eq_none core.store absent)
  | discarded b other live next called' phase effect =>
    cases own
    cases called.symm.trans called'
    have early : acquire.phase.isEarly = true := by rw [phase]; rfl
    obtain ⟨phase', goes, moved⟩ := effect.goes early
    rw [reached moved]
    rw [phase] at fits
    obtain ⟨-, -, -, -, absent, -⟩ := fits
    exact bare_of_goes goes (by rw [phase]; rfl) absent
  | resumed b other w waiter next called' phase found woken effect =>
    cases own
    cases called.symm.trans called'
    have waiting : acquire.phase.isWaiting = true := by rw [phase]; rfl
    obtain ⟨phase', goes, moved⟩ := effect.goes waiting
    rw [reached moved]
    rw [phase] at fits
    exact bare_of_goes goes waiting fits.1
  -- A call that fails while it waits relied on the absence of its key before.
  | abandoned b other w waiter error called' phase =>
    cases own
    cases called.symm.trans called'
    rw [phase] at fits
    rw [reached rfl]
    exact fits.1
  | breakerless b other answer called' phase =>
    cases own
    cases called.symm.trans called'
    rw [phase] at fits
    rw [reached rfl]
    exact fits.1
  | execRejected x exec found outstanding =>
    obtain ⟨other, called', -, phase⟩ := core.execs.awaited x exec found outstanding
    obtain rfl : exec.acquire = a := by simpa [actor, found] using own
    cases called.symm.trans called'
    rw [phase] at fits
    rw [reached rfl]
    exact fits.1
  -- The call has an entry from here on.
  | inserted x exec resource found outstanding =>
    obtain rfl : exec.acquire = a := by simpa [actor, found] using own
    rw [reached rfl]
    trivial
  | execLate x exec resource found outstanding closed =>
    rw [opened] at closed
    cases closed
  | lateDisposeSettled b other called' phase =>
    cases own
    cases called.symm.trans called'
    rw [phase] at held
    exact held.elim
  -- Everything else moves no call, or is excluded.
  | unvalidated => cases calm
  | _ => cases own

/-- Every call on its way to a rejection leaves its key without an entry. -/
def Bare (s : State κ τ) : Prop :=
  ∀ (a : Nat) acquire, s.acquires[a]? = some acquire → acquire.phase.Bare s.toStore acquire.key

/-- A calm step of an open pool leaves the keys of failed calls without an entry. -/
theorem bare_step (core : Core s) (core' : Core next) (opened : s.closed = false)
    (undrained : Undrained s.heap s.acquires) (accurate : s.toStore.Exact) (calm : action.Calm)
    (bare : s.Bare) (stepped : s.step options action = some next) : next.Bare := by
  have effect := step_effect stepped
  intro b after read
  rcases call_of_step core stepped read with ⟨before, called, same, moved⟩ |
    ⟨-, -, ⟨h, phase⟩ | ⟨p, phase⟩⟩
  · rw [same]
    have held : after.phase.Bare s.toStore before.key := by
      rcases moved with rfl | ⟨own, -⟩
      · exact bare b after called
      · exact effect.goes_bare core opened calm called (bare b before called) own read
    cases reached : after.phase with
    | closing =>
      rw [reached] at held
      exact held.elim
    | threw error =>
      rw [reached] at held
      have absent : s.entries.get? before.key = none := held
      show next.entries.get? before.key = none
      -- The key had no entry, and no other call of the key brings one in this step.
      cases bound : next.entries.get? before.key with
      | none => rfl
      | some e =>
        rcases effect.bound_back core core' undrained accurate bound with live |
          ⟨a, creator, x, called', creating, key, returned⟩
        · rw [absent] at live
          cases live
        · have differ : a ≠ b := by
            rintro rfl
            cases read.symm.trans returned
            cases reached
          rcases moved with rfl | ⟨own, -⟩
          · exact absurd key (alone_of_running core called (by rw [reached]; rfl) a creator
              differ.symm called' (by rw [creating]; rfl))
          · -- Only one call moves in a step.
            rcases call_of_step core stepped returned with ⟨old, found, -, same | ⟨mine, -⟩⟩ |
              ⟨-, -, ⟨h, phase⟩ | ⟨p, phase⟩⟩
            · cases found.symm.trans called'
              rw [← same] at creating
              cases creating
            · exact absurd (Option.some.inj (mine.symm.trans own)) differ
            · cases phase
            · cases phase
    | _ => trivial
  · rw [phase]
    trivial
  · rw [phase]
    trivial

/-! ### Room is announced -/

/-- A calm step of an open pool announces whatever room it makes. -/
theorem announces_of_calm (core : Core s) (undrained : Undrained s.heap s.acquires)
    (accurate : s.toStore.Exact) (bare : s.Bare) (calm : action.Calm)
    (stepped : s.step options action = some next) : s.Announces action := by
  -- Nothing is condemned, so no release vacates the live map.
  have staying (e : EntryId) : s.vacates e = false := by
    rw [vacates, Option.any_eq_false]
    intro entry found
    have kept := (undrained.entries entry (List.mem_of_getElem? found)).kept
    simp [kept]
  refine .inr ?_
  cases action with
  | deliver a =>
    intro acquire called last node listed entry found same
    have bound := accurate.bound_of_listed found listed
    rw [same] at bound
    -- What the call returned is what its key is bound to, and a failed call left it unbound.
    cases step_effect stepped with
    | delivered b other e called' phase =>
      cases called.symm.trans called'
      obtain ⟨record, -, key, live⟩ :=
        returned_of_undrained core undrained accurate called' (by rw [phase]; rfl)
      rw [key, bound] at live
      cases live
      exact phase
    | failed b other error called' phase =>
      cases called.symm.trans called'
      have absent := bare a acquire called'
      rw [phase] at absent
      cases bound.symm.trans absent
  | validated a verdict =>
    cases verdict with
    | none => trivial
    | some passes => cases calm; trivial
  | releaseHandle h => exact fun handle _ _ => staying handle.entry
  | release key => exact fun e _ => staying e
  | _ => trivial

/-- What holds of a pool that was never drained and whose validations have all passed. -/
structure Steady (options : PoolOptions) (s : State κ τ) : Prop where
  core : Core s
  opened : s.closed = false
  undrained : Undrained s.heap s.acquires
  accurate : s.toStore.Exact
  counted : Counted (· ≤ ·) s.heap s.handles
  waiting : Waiting s.toGate s.acquires s.closed
  attends : Attends s
  bare : s.Bare
  booked : 0 < options.max → s.Booked
  announced : 0 < options.max → s.Announced options
  unlimited : options.max ≤ 0 → s.capacityWaiters = []

/-- A new pool is steady. -/
theorem steady_init (options : PoolOptions) : Steady options (init options : State κ τ) where
  -- A new pool has nothing that could be out of order.
  core := core_init options
  opened := rfl
  undrained := undrained_init options
  accurate := Store.exact_empty
  counted := counted_init options
  waiting := waiting_init options
  attends := attends_init options
  bare := by simp [Bare, init]
  booked := fun _ => booked_init options
  announced := fun _ queued => absurd rfl queued
  unlimited := fun _ => rfl

/-- Without a bound nobody comes to wait for a slot. -/
theorem unlimited_step (core : Core s) (waiting : Waiting s.toGate s.acquires s.closed)
    (unbounded : options.max ≤ 0) (none_ : s.capacityWaiters = [])
    (stepped : s.step options action = some next) : next.capacityWaiters = [] := by
  -- A pool without a bound parks nobody, and no other step adds to the line.
  cases line_of_step core waiting stepped with
  | queued key cell next gate => rw [gate, none_]
  | parked action a acquire next continues parks =>
    have bounded := parks.2.1.bounded
    omega
  | settled action next stays settles =>
    rw [List.eq_nil_iff_forall_not_mem]
    intro w queued
    have before := settles.gate.fewer waiting.sound w queued
    simp [none_] at before

/-- A calm step keeps a pool steady. -/
theorem steady_step (steady : Steady options s) (calm : action.Calm)
    (stepped : s.step options action = some next) : Steady options next := by
  obtain ⟨core, opened, undrained, accurate, counted, waiting, attends, bare, booked, announced,
    unlimited⟩ := steady
  have effect := step_effect stepped
  have core' := core_step core stepped
  have told := announces_of_calm core undrained accurate bare calm stepped
  -- Each part is kept by a lemma of its own, which may use the others before the step.
  exact
    { core := core'
      opened := effect.opened core.store calm.open_ opened
      undrained := effect.undrained core undrained calm.open_
      accurate := effect.exact core (noRevival_of_undrained undrained action) accurate
      counted := effect.counted comparison_le core (.inr (by omega)) counted
      waiting := effect.waiting core waiting
      attends := effect.attends core.store attends
      bare := bare_step core core' opened undrained accurate calm bare stepped
      booked := fun bounded => effect.booked core bounded (booked bounded)
      announced := fun bounded => effect.announced core bounded waiting told (announced bounded)
      unlimited := fun unbounded => unlimited_step core waiting unbounded (unlimited unbounded)
        stepped }

/-! ### At rest -/

/-- All that the pool has asked of the outside has been answered, though handles may be out. -/
structure Answered (s : State κ τ) : Prop where
  settled : s.Settled
  called : ∀ acquire ∈ s.acquires, acquire.phase.outside = false
  disposed : ∀ entry ∈ s.heap, entry.disposing = true → entry.disposed = true

/-- The pool is full of entries that somebody holds. -/
structure InUse (options : PoolOptions) (s : State κ τ) : Prop where
  bounded : 0 < options.max
  full : options.max ≤ s.entries.size
  held : ∀ key e, s.entries.get? key = some e →
    ∃ handle ∈ s.handles, handle.entry = e ∧ handle.released = false

/-- No call is kept waiting but by handles. -/
structure Serves (options : PoolOptions) (s : State κ τ) : Prop where
  /-- Where a call is left waiting, all slots are taken by entries that are held. -/
  inUse : s.Answered → Quiescent options s →
    ∀ acquire ∈ s.acquires, acquire.phase.stage ≠ .settled → s.InUse options
  /-- Once the handles are released every call has settled. -/
  settled : s.AtRest → Quiescent options s →
    ∀ acquire ∈ s.acquires, acquire.phase.stage = .settled

/-- At rest a call in flight is parked, or queued behind one that is. -/
theorem Steady.parked (steady : Steady options s) (answered : s.Answered)
    (quiet : Quiescent options s) (inside : acquire ∈ s.acquires)
    (unsettled : acquire.phase.stage ≠ .settled) :
    ∃ w ∈ s.capacityWaiters, ∃ first ∈ s.acquires, first.key = acquire.key ∧
      first.phase = .parked w := by
  have waits := Quiescent.waits quiet steady.core steady.waiting steady.attends
  obtain ⟨first, present, same, outstanding⟩ := waits.calls acquire inside unsettled
  have within := answered.called first present
  -- Everything else that a call could wait for has been answered.
  cases phase : first.phase with
  | parked w =>
    rw [phase] at outstanding
    exact ⟨w, outstanding, first, present, same, phase⟩
  | validating | closing => simp [phase, Phase.outside] at within
  | discarding live =>
    rw [phase] at outstanding
    obtain ⟨entry, found, begun, unfinished⟩ := outstanding
    have ended := answered.disposed entry (List.mem_of_getElem? found) begun
    rw [unfinished] at ended
    cases ended
  | creating x =>
    rw [phase] at outstanding
    obtain ⟨exec, found, outstanding⟩ := outstanding
    have ended := answered.settled.1 exec (List.mem_of_getElem? found)
    simp [outstanding, Outcome.isPending] at ended
  | queued | granted | returned | threw | fulfilled | rejected =>
    rw [phase] at outstanding
    exact outstanding.elim

/-- At rest nobody holds a reservation. -/
theorem Steady.unreserved (steady : Steady options s) (answered : s.Answered)
    (quiet : Quiescent options s) (bounded : 0 < options.max) : s.reserved = 0 := by
  have none_ : reservations s.acquires = 0 := by
    refine List.countP_eq_zero.mpr fun acquire inside reserving => ?_
    obtain ⟨a, called⟩ := List.mem_iff_getElem?.mp inside
    have stuck := quiet.stuck called
    cases phase : acquire.phase <;> simp [phase, Phase.reserving] at reserving
    -- A granted call would go on, and no creation is outstanding.
    · rw [phase] at stuck
      exact stuck
    · obtain ⟨exec, found, outstanding, -⟩ := steady.core.execs.started a acquire _ called phase
      have ended := answered.settled.1 exec (List.mem_of_getElem? found)
      simp [outstanding, Outcome.isPending] at ended
  rw [steady.booked bounded, none_]
  rfl

/-- At rest an idle entry of a steady pool is not spared for a call of its key. -/
theorem Steady.not_pending (steady : Steady options s) (answered : s.Answered)
    (quiet : Quiescent options s) {entry : Entry κ τ} (found : s.heap[e]? = some entry)
    (bound : s.entries.get? entry.key = some e) : s.nodePending e = false := by
  rw [nodePending_of_found found]
  refine Bool.eq_false_iff.mpr fun pending => ?_
  -- A mark is a call in flight, whose key has no entry where it is parked.
  have marked : 0 < s.toKeyState.pendingOf entry.key := by
    simpa [KeyState.isPending] using pending
  rw [steady.core.chained.marked, List.countP_pos_iff] at marked
  obtain ⟨slot, inside, active⟩ := marked
  obtain ⟨acquire, called, rfl⟩ := List.mem_map.mp inside
  rw [Bool.and_eq_true, decide_eq_true_eq] at active
  have unsettled : acquire.phase.stage ≠ .settled := by
    intro settled
    simp [Slot.isOpen, Acquire.slot, settled] at active
  obtain ⟨w, -, first, present, same, phase⟩ := steady.parked answered quiet called unsettled
  obtain ⟨b, read⟩ := List.mem_iff_getElem?.mp present
  obtain ⟨absent, -⟩ := steady.core.fits read phase
  have key : first.key = entry.key := same.trans active.2
  rw [key, bound] at absent
  cases absent

/-- At rest a steady pool keeps calls waiting only where all its entries are held. -/
theorem Steady.serves (steady : Steady options s) : s.Serves options := by
  have inUse (answered : s.Answered) (quiet : Quiescent options s) (acquire : Acquire κ)
      (inside : acquire ∈ s.acquires) (unsettled : acquire.phase.stage ≠ .settled) :
      s.InUse options := by
    obtain ⟨w, queued, -⟩ := steady.parked answered quiet inside unsettled
    have lined : s.capacityWaiters ≠ [] := List.ne_nil_of_mem queued
    -- Without a bound nobody is parked.
    have bounded : 0 < options.max := by
      by_contra unbounded
      exact lined (steady.unlimited (by omega))
    have announced := noLostWakeup_of_announced (steady.announced bounded)
    obtain ⟨full, busy⟩ := announced quiet lined
    rw [steady.unreserved answered quiet bounded] at full
    refine ⟨bounded, by omega, fun key e bound => ?_⟩
    obtain ⟨entry, found, promised⟩ := steady.core.store.live key e bound
    have live : s.entries.get? entry.key = some e := promised.key.symm ▸ bound
    -- An entry without holder would be listed, and so evicted for the call.
    have held : entry.refCount ≠ 0 := by
      intro unheld
      have listed := (steady.accurate.each e entry found).listed.mpr ⟨live, unheld⟩
      have spared := steady.not_pending answered quiet found live
      rw [busy e listed] at spared
      cases spared
    have undisposed := (steady.core.store.sound e entry found).undisposed promised.undisposed
    have out := steady.counted.counts e entry found undisposed
    have some_ : 0 < outstanding s.handles e := by omega
    obtain ⟨handle, issued, holding⟩ := List.countP_pos_iff.mp some_
    rw [Bool.and_eq_true, decide_eq_true_eq, Bool.not_eq_true'] at holding
    exact ⟨handle, issued, holding.2, holding.1⟩
  refine ⟨inUse, fun rest quiet acquire inside => ?_⟩
  by_contra unsettled
  obtain ⟨bounded, full, held⟩ := inUse ⟨rest.settled, rest.called, rest.disposed⟩ quiet acquire
    inside unsettled
  -- A full pool has an entry, and a holder of it.
  cases items : s.entries.items with
  | nil =>
    have empty : s.entries.size = 0 := by simp [OrderedMap.size, items]
    omega
  | cons first rest' =>
    obtain ⟨key, e⟩ := first
    have bound : s.entries.get? key = some e := by simp [OrderedMap.get?, items]
    obtain ⟨handle, issued, -, holding⟩ := held key e bound
    rw [rest.released handle issued] at holding
    cases holding

/--
A pool that is never drained, and whose resources pass validation, keeps a call waiting only for a
handle: whenever nothing is left to run and no callback is outstanding, the entries that are held
take up all slots, or every call has settled.
-/
theorem serves_throughout (options : PoolOptions) (actions : List (Action κ τ))
    (calm : ∀ action ∈ actions, action.Calm) :
    Runs.Throughout (step options) (Serves options) (init options) actions := by
  have each : Runs.Guarded (step options) (fun _ action => action.Calm) (init options) actions :=
    Runs.guarded_of_forall calm
  -- Every step is calm, so the pool stays steady along the run.
  have kept := each.throughout (Steady options)
    (fun s action next steady calm stepped => steady_step steady calm stepped)
    (steady_init options)
  exact kept.mono fun s steady => steady.serves

/-- A parked acquire is served as soon as the handle that it waits for is released. -/
theorem serves_throughout_released :
    let options : PoolOptions := { max := 1, validate := true }
    let create (key a : Nat) : List (Action Nat Nat) :=
      [.create a .threw, .factoryCalled a, .factorySettled a (some key),
        .execSettled a (some key), .deliver a]
    Runs.Throughout (step options) (Serves options) (init options)
      ([.acquire 7, .obtain 0] ++ create 7 0 ++ [.acquire 8, .obtain 1, .releaseHandle 0,
        .resume 1] ++ create 8 1 ++ [.releaseHandle 1, .acquire 8, .obtain 2,
        .validated 2 (some true), .deliver 2]) :=
  -- All steps of this run are calm.
  serves_throughout _ _ (by decide)

end State

end RefPool
