import RefPool.Proofs.Ceiling
import RefPool.Proofs.Lifecycle
import RefPool.Proofs.Reservations

/-! What a rejected acquire leaves behind: nothing that it held, and one disposal at most. -/

namespace RefPool

variable {κ τ : Type} [DecidableEq κ]

namespace Store

/-- Two stores differ in one discarded entry at most: unlisted, unbound and being disposed of. -/
structure Discards (store next : Store κ τ) (discarded : Option EntryId) : Prop where
  heap : ∀ e : Nat, next.heap[e]? = (store.heap[e]?).map fun entry =>
    if discarded = some e then
      { entry with inIdle := false, disposing := entry.disposing || !entry.disposed }
    else entry
  entries : ∀ key e, next.entries.get? key = some e ↔
    store.entries.get? key = some e ∧ discarded ≠ some e
  orphans : ∀ key e, next.orphans.get? key = some e ↔
    store.orphans.get? key = some e ∧ discarded ≠ some e
  idle : ∀ e, e ∈ next.idle ↔ e ∈ store.idle ∧ discarded ≠ some e

namespace Discards

variable {store next : Store κ τ} {e : EntryId} {entry : Entry κ τ}

/-- A store differs from itself in no entry. -/
theorem refl (store : Store κ τ) : Discards store store none := by
  -- Every entry is equal to itself.
  constructor <;> simp

omit [DecidableEq κ] in
/-- One entry of the heap is written to. -/
theorem heap_of_modify (heap : next.heap = store.heap.modify e fun entry =>
      { entry with inIdle := false, disposing := entry.disposing || !entry.disposed })
    (other : Nat) : next.heap[other]? = (store.heap[other]?).map fun entry =>
      if some e = some other then
        { entry with inIdle := false, disposing := entry.disposing || !entry.disposed }
      else entry := by
  -- The heap is read at the address that was written, or elsewhere.
  rw [heap, List.getElem?_modify]
  simp only [Option.some.injEq]
  rfl

/-- An eviction discards its victim, if no other entry is bound to the key of the victim. -/
theorem evict (wf : store.WellFormed) (found : store.heap[e]? = some entry)
    (unheld : entry.refCount = 0) (own : ∀ other ∈ store.entries.get? entry.key, other = e) :
    Discards store ((store.unlink e).beginDispose e) (some e) where
  heap := heap_of_modify (evict_heap store e)
  entries := by
    intro key other
    rw [evict_entries _ _ found]
    -- Only the key of the evicted entry loses its binding.
    constructor
    · intro bound
      obtain ⟨differ, before⟩ := OrderedMap.get?_of_delete bound
      refine ⟨before, fun same => differ ?_⟩
      rw [Option.some.injEq] at same
      subst same
      exact (wf.live_at before found).key.symm
    · rintro ⟨bound, differ⟩
      rw [OrderedMap.get?_delete_ne, bound]
      rintro rfl
      exact differ (congrArg some (own other bound)).symm
  orphans := by
    intro key other
    rw [beginDispose_orphans, unlink_orphans]
    refine ⟨fun bound => ⟨bound, fun same => ?_⟩, And.left⟩
    rw [Option.some.injEq] at same
    exact wf.not_orphan_of_unheld found unheld key (same ▸ bound)
  idle := by
    intro other
    rw [beginDispose_idle, unlink_idle, wf.mem_idleRemove]
    simp only [ne_eq, Option.some.injEq, eq_comm]
    exact and_comm

/-- An entry that failed validation is discarded from whatever map binds it. -/
theorem discard (wf : store.WellFormed) (found : store.heap[e]? = some entry) :
    Discards store ((store.removeEntry e).beginDispose e) (some e) where
  heap := heap_of_modify (discard_heap store e)
  -- The binding that is deleted is the one of the entry itself, in either map.
  entries := by
    intro key other
    rw [discard_entries _ _ found, OrderedMap.get?_deleteBinding_eq_some]
    refine and_congr_right fun bound => ?_
    constructor
    · rintro apart same
      rw [Option.some.injEq] at same
      subst same
      exact apart ⟨(wf.live_at bound found).key.symm, rfl⟩
    · rintro differ ⟨-, same⟩
      exact differ (congrArg some same).symm
  orphans := by
    intro key other
    rw [beginDispose_orphans, removeEntry_orphans found, OrderedMap.get?_deleteBinding_eq_some]
    refine and_congr_right fun bound => ?_
    constructor
    · rintro apart same
      rw [Option.some.injEq] at same
      subst same
      exact apart ⟨(wf.orphaned_at bound found).key.symm, rfl⟩
    · rintro differ ⟨-, same⟩
      exact differ (congrArg some same).symm
  idle := by
    intro other
    rw [beginDispose_idle, removeEntry_idle, wf.mem_idleRemove]
    simp only [ne_eq, Option.some.injEq, eq_comm]
    exact and_comm

end Discards

end Store

/-- Whether a call has come to an entry. -/
def Phase.succeeds : Phase → Bool
  | .returned _ | .fulfilled _ => true
  | _ => false

namespace State

variable {options : PoolOptions} {s next : State κ τ} {a : AcquireId} {key : κ}
  {action : Action κ τ}

/-- Everything that acquires hold is held by acquires that have not ended. -/
structure Accounted (s : State κ τ) : Prop where
  /-- A slot is reserved by a call that neither inserted its entry nor failed since. -/
  reserved : s.reserved = reservations s.acquires
  nonnegative : 0 ≤ s.reserved
  unreserved : (∀ acquire ∈ s.acquires, acquire.phase.reserving = false) → s.reserved = 0
  /-- A key is marked once for each of its calls in flight. -/
  marks : ∀ key, s.toKeyState.pendingOf key =
    s.acquires.countP fun acquire => acquire.phase.stage ≠ .settled ∧ acquire.key = key
  /-- The turns on a mutex are those of calls in flight, and one of them is its tail. -/
  turns : ∀ key c, s.mutexes.get? key = some c → ∃ cell, s.cells[c]? = some cell ∧
    cell.pending = s.acquires.countP fun acquire =>
      acquire.phase.stage ≠ .settled ∧ acquire.cell = some c
  tails : ∀ key p, s.toKeyState.tailOf key = some p →
    ∃ acquire, s.acquires[p]? = some acquire ∧ acquire.phase.stage ≠ .settled
  /-- A queued waiter is that of a parked call. -/
  waiters : ∀ w ∈ s.capacityWaiters, ∃ acquire ∈ s.acquires, acquire.phase = .parked w

/-- The entry that a step of an acquire may discard. -/
inductive Victim (s : State κ τ) (action : Action κ τ) (e : EntryId) : Prop
  /-- It is the least recently used entry that may be evicted. -/
  | evicted (contends : s.contends action = true)
      (first : s.idle.find? (fun node => !s.nodePending node) = some e)
  /-- It failed validation. -/
  | refuted (a : AcquireId) (acquire : Acquire κ) (acting : action = .validated a (some false))
      (called : s.acquires[a]? = some acquire) (phase : acquire.phase = .validating e)

/-- What a step of an acquire may pass to `options.dispose`. -/
inductive Disposes (s : State κ τ) (action : Action κ τ) (discarded : Option EntryId) :
    τ × κ → Prop
  /-- The resource of the entry it discards. -/
  | entry (e : EntryId) (entry : Entry κ τ) (same : discarded = some e)
      (found : s.heap[e]? = some entry) : Disposes s action discarded (entry.resource, entry.key)
  /-- The resource that was made for it too late. -/
  | late (x : ExecId) (exec : Exec κ τ) (resource : τ) (closed : s.closed = true)
      (acting : action = .execSettled x (some resource)) (found : s.execs[x]? = some exec) :
      Disposes s action discarded (resource, exec.key)

/--
A step of an acquire leaves no trace but one disposal.

Apart from the entry it discards, all entries with their references, both maps, the idle list, the
handles, the drains and the other acquires are as they were.
-/
structure Traceless (s : State κ τ) (action : Action κ τ) (next : State κ τ) : Prop where
  store : ∃ discarded, s.toStore.Discards next.toStore discarded ∧
    (∀ e, discarded = some e → s.Victim action e) ∧
    ∃ calls, next.disposeCalls = s.disposeCalls ++ calls ∧
      ∀ call ∈ calls, s.Disposes action discarded call
  handles : next.handles = s.handles
  drains : next.drains = s.drains
  promises : next.disposalWaits = s.disposalWaits
  closed : next.closed = s.closed
  others : ∀ b, s.actor action ≠ some b → b < s.acquires.length →
    next.acquires[b]? = s.acquires[b]?

/-- Whoever is evicted from a full pool is the entry that its key is bound to, if any is. -/
def EvictsOwn (options : PoolOptions) (s : State κ τ) (action : Action κ τ) : Prop :=
  s.contends action = true → options.max ≤ s.entries.size + s.reserved →
    ∀ victim ∈ s.idle.find? (fun node => !s.nodePending node), ∀ entry ∈ s.heap[victim]?,
      ∀ e ∈ s.entries.get? entry.key, e = victim

/-- Whether a step evicts the entry that its key is bound to can be checked. -/
instance (options : PoolOptions) (s : State κ τ) (action : Action κ τ) :
    Decidable (s.EvictsOwn options action) := by
  unfold EvictsOwn
  infer_instance

/-- What a step of a call leaves alone, apart from the store and the calls of `options.dispose`. -/
structure Moves (s next : State κ τ) (a : AcquireId) : Prop where
  acquires : ∀ b, b ≠ a → b < s.acquires.length → next.acquires[b]? = s.acquires[b]?
  handles : next.handles = s.handles
  drains : next.drains = s.drains
  promises : next.disposalWaits = s.disposalWaits
  closed : next.closed = s.closed

omit [DecidableEq κ] in
/-- Moving a call on leaves the other calls alone. -/
theorem Moves.modify {assign : Acquire κ → Acquire κ}
    (acquires : next.acquires = s.acquires.modify a assign) (handles : next.handles = s.handles)
    (drains : next.drains = s.drains) (promises : next.disposalWaits = s.disposalWaits)
    (closed : next.closed = s.closed) : Moves s next a where
  -- The other calls are at other addresses.
  acquires := fun b differ _ => by
    rw [acquires, Arena.getElem?_modify_other _ _ differ.symm]
  handles := handles
  drains := drains
  promises := promises
  closed := closed

/-- A step that moves its own call on and keeps the store leaves no trace. -/
theorem Moves.traceless (moves : Moves s next a) (own : s.actor action = some a)
    (store : next.toStore = s.toStore) (calls : next.disposeCalls = s.disposeCalls) :
    s.Traceless action next where
  -- Without a discarded entry the store is the same.
  store := ⟨none, store ▸ .refl s.toStore, nofun, [], by rw [calls, List.append_nil], nofun⟩
  handles := moves.handles
  drains := moves.drains
  promises := moves.promises
  closed := moves.closed
  others := fun b alien inside => moves.acquires b (fun same => alien (same ▸ own)) inside

/-- A step that does no more than to move its own call on leaves no trace. -/
theorem traceless_move {phase : Phase} (own : s.actor action = some a)
    (acquires : next.acquires = s.acquires.modify a fun acquire => { acquire with phase })
    (store : next.toStore = s.toStore) (calls : next.disposeCalls = s.disposeCalls)
    (handles : next.handles = s.handles) (drains : next.drains = s.drains)
    (promises : next.disposalWaits = s.disposalWaits) (closed : next.closed = s.closed) :
    s.Traceless action next :=
  -- Moving the call on is the only change.
  (Moves.modify acquires handles drains promises closed).traceless own store calls

/-- A step that moves its own call on and discards its victim leaves no other trace. -/
theorem Moves.discard {e : EntryId} {entry : Entry κ τ} {before : Store κ τ}
    (moves : Moves s next a) (own : s.actor action = some a) (found : s.heap[e]? = some entry)
    (victim : s.Victim action e) (discards : s.toStore.Discards next.toStore (some e))
    (unlisted : before.heap = s.heap.modify e fun entry => { entry with inIdle := false })
    (calls : next.disposeCalls = s.disposeCalls ++
      (before.toDispose e).toList.map fun entry => (entry.resource, entry.key)) :
    s.Traceless action next where
  -- What is passed to `options.dispose` is the resource of the victim, if anything is.
  store := by
    refine ⟨some e, discards, fun other same => ?_, _, calls, fun call inside => ?_⟩
    · cases same
      exact victim
    · obtain ⟨record, disposed, rfl⟩ := List.mem_map.mp inside
      obtain ⟨read, -⟩ := Option.filter_eq_some_iff.mp (Option.mem_toList.mp disposed)
      rw [unlisted, Arena.getElem?_modify_self _ found] at read
      cases read
      exact .entry e entry rfl found
  handles := moves.handles
  drains := moves.drains
  promises := moves.promises
  closed := moves.closed
  others := fun b alien inside => moves.acquires b (fun same => alien (same ▸ own)) inside

/-- A turn of the reservation loop leaves no trace, if it evicts nobody else's entry. -/
theorem SlotEffect.traceless (effect : SlotEffect options s a next) (wf : s.toStore.WellFormed)
    (own : s.actor action = some a) (contends : s.contends action = true)
    (evicts : s.EvictsOwn options action) : s.Traceless action next := by
  -- Only an eviction touches the store, and its victim is its key's own entry.
  cases effect with
  | evicted victim _ _ full listed _ first =>
    obtain ⟨entry, found, -⟩ := wf.listed victim listed
    have unheld := wf.unheld_of_listed listed found
    have moves : Moves s ({ s.evict victim .lru with toGate := s.toGate.reserve }.setPhase a
        .granted) a := .modify rfl rfl rfl rfl rfl
    exact moves.discard own found (.evicted contends first)
      (.evict wf found unheld fun e bound => evicts contends full victim first entry found e bound)
      (Store.unlink_heap s.toStore victim) rfl
  | unbounded | refused | reserved | exhausted | parked =>
    exact traceless_move own rfl rfl rfl rfl rfl rfl rfl

/-- Counting a miss leaves no trace. -/
theorem Traceless.of_miss (traceless : s.miss.Traceless action next) : s.Traceless action next where
  -- The counters are no part of what a step leaves behind.
  store := by
    obtain ⟨discarded, discards, victim, calls, disposed, disposes⟩ := traceless.store
    refine ⟨discarded, discards, fun e same => ?_, calls, disposed, fun call inside => ?_⟩
    · cases victim e same with
      | evicted contends first => exact .evicted contends first
      | refuted b acquire acting called phase => exact .refuted b acquire acting called phase
    · cases disposes call inside with
      | entry e entry same found => exact .entry e entry same found
      | late x exec resource closed acting found => exact .late x exec resource closed acting found
  handles := traceless.handles
  drains := traceless.drains
  promises := traceless.promises
  closed := traceless.closed
  others := traceless.others

/-- `obtain` from the orphan lookup on leaves no trace, or returns an entry. -/
theorem MissEffect.traceless (effect : MissEffect options s a key next) (wf : s.toStore.WellFormed)
    (own : s.actor action = some a) (called : a < s.acquires.length)
    (contends : s.orphans.get? key = none → s.contends action = true)
    (evicts : s.EvictsOwn options action) : s.Traceless action next ∨
      ∃ acquire, next.acquires[a]? = some acquire ∧ acquire.phase.succeeds = true := by
  -- The orphan found is the entry that the call comes to.
  cases effect with
  | resurrected e bound =>
    refine .inr ⟨_, Arena.getElem?_modify_self _ (List.getElem?_eq_getElem called), rfl⟩
  | refused => exact .inl (traceless_move own rfl rfl rfl rfl rfl rfl rfl)
  | slot _ absent _ effect =>
    have going := contends (undisposed_orphans_eq_none wf absent)
    have slot : s.miss.Traceless action next := effect.traceless wf own going evicts
    exact .inl slot.of_miss

/-- A step of a call leaves no trace, or the call comes to an entry. -/
theorem Effect.traceless (core : Core s) (effect : Effect options s action next)
    (own : s.actor action = some a) (evicts : s.EvictsOwn options action) :
    s.Traceless action next ∨
      ∃ acquire, next.acquires[a]? = some acquire ∧ acquire.phase.succeeds = true := by
  -- The steps of other parties have no actor, and those of a call are taken one by one.
  have moved {phase : Phase}
      (acquires : next.acquires = s.acquires.modify a fun acquire => { acquire with phase })
      (store : next.toStore = s.toStore) (calls : next.disposeCalls = s.disposeCalls)
      (handles : next.handles = s.handles) (drains : next.drains = s.drains)
      (promises : next.disposalWaits = s.disposalWaits) (closed : next.closed = s.closed) :
      s.Traceless action next ∨
        ∃ acquire, next.acquires[a]? = some acquire ∧ acquire.phase.succeeds = true :=
    .inl (traceless_move own acquires store calls handles drains promises closed)
  cases effect with
  | shared key e =>
    cases own
    refine .inr ⟨⟨key, none, .fulfilled s.handles.length⟩, ?_, rfl⟩
    show ((s.acquires ++ [(⟨key, none, .queued none⟩ : Acquire κ)]).modify s.acquires.length
      fun acquire => { acquire with phase := .fulfilled s.handles.length })[s.acquires.length]? = _
    rw [Arena.modify_push]
    exact List.getElem?_concat_length
  | queued key =>
    cases own
    exact .inl
      { store := ⟨none, .refl s.toStore, nofun, [], (List.append_nil _).symm, nofun⟩
        handles := rfl, drains := rfl, promises := rfl, closed := rfl
        others := fun b _ inside => List.getElem?_append_left inside }
  -- These steps only move the call.
  | validating b | abandoned b | unvalidated b | lateDisposeSettled b | breakerless b
  | creating b =>
    cases own
    exact moved rfl rfl rfl rfl rfl rfl rfl
  | failed b acquire error called =>
    cases own
    exact moved rfl rfl rfl rfl rfl rfl rfl
  -- In these the call comes to an entry.
  | returned b acquire after e entry called | passed b acquire e called =>
    cases own
    exact .inr ⟨_, Arena.getElem?_modify_self _ called, rfl⟩
  | delivered b acquire e called =>
    cases own
    exact .inr ⟨_, Arena.getElem?_modify_self _ called, rfl⟩
  -- The loop is entered with the key in neither map.
  | missed b acquire after next called phase turn absent effect =>
    cases own
    have unbound := undisposed_entries_eq_none core.store absent
    refine effect.traceless core.store rfl (List.getElem?_eq_some_iff.mp called).1
      (fun unorphaned => ?_) evicts
    simp [contends, searched, called, OrderedMap.has, unbound, unorphaned, Option.filter]
  | discarded b acquire live next called phase effect =>
    cases own
    refine effect.traceless core.store rfl (List.getElem?_eq_some_iff.mp called).1
      (fun unorphaned => ?_) evicts
    simp [contends, searched, called, OrderedMap.has, unorphaned]
  | resumed b acquire w waiter next called phase found woken effect =>
    cases own
    exact .inl (effect.traceless core.store rfl
      (by simp [contends, called, phase, Phase.waiter, found, woken]) evicts)
  | refuted b acquire live called phase =>
    cases own
    obtain ⟨entry, found, -⟩ := core.fits called phase
    have moves : Moves s (({ s with toStore := s.toStore.removeEntry live }.dispose live).setPhase a
        (.discarding live)) a := .modify rfl rfl rfl rfl rfl
    exact .inl (moves.discard rfl found (.refuted a acquire rfl called phase)
      (.discard core.store found) (Store.removeEntry_heap s.toStore live) rfl)
  | execRejected x exec found outstanding =>
    simp only [actor, found, Option.map_some, Option.some.injEq] at own
    subst own
    exact moved rfl rfl rfl rfl rfl rfl rfl
  -- The resource that came too late is passed to `options.dispose` at once.
  | execLate x exec resource found outstanding closed =>
    simp only [actor, found, Option.map_some, Option.some.injEq] at own
    subst own
    have moves : Moves s ({ { s with
        execs := s.execs.modify x fun exec =>
          { exec with outcome := .fulfilled resource } }.releaseReservation with
        disposeCalls := s.disposeCalls ++ [(resource, exec.key)] }.setPhase exec.acquire
        .closing) exec.acquire := .modify rfl rfl rfl rfl rfl
    exact .inl
      { store := ⟨none, .refl s.toStore, nofun, [(resource, exec.key)], rfl, fun _ inside => by
          rw [List.mem_singleton.mp inside]
          exact .late x exec resource closed rfl found⟩
        handles := rfl, drains := rfl, promises := rfl, closed := rfl
        others := fun b alien inside => moves.acquires b
          (fun same => alien (by simp [actor, found, same])) inside }
  | inserted x exec resource found outstanding =>
    simp only [actor, found, Option.map_some, Option.some.injEq] at own
    subst own
    obtain ⟨acquire, called, -⟩ := core.execs.awaited x exec found outstanding
    exact .inr ⟨_, Arena.getElem?_modify_self _ called, rfl⟩
  | releasedAgain | releasedNone | released | releasedKey | drain | stop | start | sweep
  | gcKeyState | emitStats | timeout | clock | drained | factoryCalled | factorySettled
  | disposeSettled | breakerChanged => cases own

/-- A call that has come to an entry does not fail any more. -/
theorem succeeds_run {actions : List (Action κ τ)} {acquire : Acquire κ} {last : State κ τ}
    (core : Core s) (ran : Runs.run (step options) s actions = some last)
    (called : s.acquires[a]? = some acquire) (succeeds : acquire.phase.succeeds = true) :
    ∃ after, last.acquires[a]? = some after ∧ after.phase.succeeds = true := by
  -- A call that has an entry goes on to be fulfilled, and stays so.
  refine (Runs.run_invariant (fun s : State κ τ => Core s ∧
    ∃ acquire, s.acquires[a]? = some acquire ∧ acquire.phase.succeeds = true) ?_
    ⟨core, acquire, called, succeeds⟩ ran).2
  rintro s action next ⟨core, acquire, called, succeeds⟩ stepped
  obtain ⟨after, read, goes⟩ := call_goes core stepped called
  refine ⟨core_step core stepped, after, read, ?_⟩
  rcases goes with rfl | goes
  · exact succeeds
  · have kept : (∃ e, acquire.phase = .returned e) ∨ ∃ h, acquire.phase = .fulfilled h := by
      cases phase : acquire.phase <;> simp [phase, Phase.succeeds] at succeeds ⊢
    obtain ⟨h, fulfilled⟩ := goes.kept kept
    rw [fulfilled]
    rfl

omit [DecidableEq κ] in
/-- To the mutex a call in flight is one whose stage is not settled. -/
theorem isOpen_slot (acquire : Acquire κ) :
    acquire.slot.isOpen = true ↔ acquire.phase.stage ≠ .settled :=
  -- A slot is open while its stage is not the settled one.
  decide_eq_true_iff

/-- A core state in which the reservations are booked and the waiters agree is accounted for. -/
theorem accounted_of_core (core : Core s) (booked : s.Booked)
    (waiting : Waiting s.toGate s.acquires s.closed) : s.Accounted where
  -- The clauses read off the agreement of mutexes, reservations and waiters with the calls.
  reserved := booked
  nonnegative := by
    rw [booked]
    exact Int.natCast_nonneg _
  unreserved := by
    intro unreserving
    have none : reservations s.acquires = 0 := by
      rw [reservations, List.countP_eq_zero]
      exact fun acquire inside => by simp [unreserving acquire inside]
    rw [booked, none]
    rfl
  marks := by
    intro key
    rw [core.chained.marked key, List.countP_map]
    refine List.countP_congr fun acquire _ => ?_
    simp only [Function.comp_apply, Bool.and_eq_true, isOpen_slot, decide_eq_true_eq]
    rfl
  turns := by
    intro key c bound
    obtain ⟨cell, present, -⟩ := core.chained.bound key c bound
    refine ⟨cell, present, ?_⟩
    rw [core.chained.counted c cell present, List.countP_map]
    refine List.countP_congr fun acquire _ => ?_
    simp only [Function.comp_apply, Bool.and_eq_true, isOpen_slot, decide_eq_true_eq]
    rfl
  -- The tail of a mutex belongs to a call that is still open.
  tails := by
    intro key p tail
    rcases core.chained.tailOf_eq key with ⟨-, none, -⟩ | ⟨c, q, last, -, same, present, opened, -⟩
    · simp [tail] at none
    · rw [tail, Option.some.injEq] at same
      subst same
      rw [List.getElem?_map, Option.map_eq_some_iff] at present
      obtain ⟨acquire, called, rfl⟩ := present
      exact ⟨acquire, called, (isOpen_slot acquire).mp opened⟩
  waiters := by
    intro w queued
    obtain ⟨acquire, inside, parked⟩ := waiting.owned w queued
    refine ⟨acquire, inside, ?_⟩
    cases phase : acquire.phase <;> simp [phase, Phase.waiter] at parked ⊢
    exact parked

/--
A failed acquire leaves no trace in a run.

In every state whatever acquires hold is held by acquires that have not ended, and each step of an
acquire that is rejected in the end leaves no trace.
-/
structure FailsClean (options : PoolOptions) (actions : List (Action κ τ)) : Prop where
  accounted : Runs.Throughout (step options) Accounted (init options) actions
  traceless : ∀ before action after, actions = before ++ action :: after →
    ∀ s next last : State κ τ, Runs.run (step options) (init options) before = some s →
      s.step options action = some next → Runs.run (step options) next after = some last →
      ∀ a acquire error, s.actor action = some a → last.acquires[a]? = some acquire →
        acquire.phase = .rejected error → s.Traceless action next

/-- A failed acquire leaves no trace where no eviction unbinds somebody else's entry. -/
theorem failsClean_of_evictsOwn (options : PoolOptions) (bounded : 0 < options.max)
    (actions : List (Action κ τ))
    (own : Runs.Guarded (step options) (EvictsOwn options) (init options) actions) :
    FailsClean options actions where
  accounted := by
    have kept := Runs.throughout_of_invariant
      (fun s : State κ τ => Core s ∧ s.Booked ∧ Waiting s.toGate s.acquires s.closed)
      (fun s action next ⟨core, booked, waiting⟩ (stepped : s.step options action = some next) =>
        have effect := step_effect stepped
        ⟨core_step core stepped, effect.booked core bounded booked, effect.waiting core waiting⟩)
      ⟨core_init options, booked_init options, waiting_init options⟩ actions
    exact kept.mono fun s ⟨core, booked, waiting⟩ => accounted_of_core core booked waiting
  traceless := by
    rintro before action after rfl s next last ran stepped later a acquire error acts called phase
    have core := core_run ran
    have evicts := own.of_run ran stepped
    rcases (step_effect stepped).traceless core acts evicts with traceless | ⟨found, read, came⟩
    · exact traceless
    · -- A call that has come to an entry is not the one that is rejected in the end.
      obtain ⟨end_, present, succeeds⟩ := succeeds_run (core_step core stepped) later read came
      cases called.symm.trans present
      simp [phase, Phase.succeeds] at succeeds

/-- A failing acquire evicts an idle entry, and its key is forgotten with it. -/
theorem failsClean_of_evictsOwn_evicting :
    FailsClean { max := 1 }
      ([.acquire 7, .obtain 0, .create 0 .threw, .factoryCalled 0, .factorySettled 0 (some 70),
        .execSettled 0 (some 70), .deliver 0, .releaseHandle 0, .acquire 8, .obtain 1,
        .create 1 .threw, .execSettled 1 none, .deliver 1] : List (Action Nat Nat)) :=
  -- The evicted entry is the one that its key is bound to.
  failsClean_of_evictsOwn _ (by decide) _ (by decide +kernel)

/-- A failing acquire evicts a revived entry, and the held entry of the same key is forgotten. -/
theorem failsClean_revived :
    let options : PoolOptions := { max := 1, validate := true }
    let create (a x : Nat) : List (Action Nat Nat) :=
      [.acquire 7, .obtain a, .create a .threw, .factoryCalled x, .factorySettled x (some x),
        .execSettled x (some x), .deliver a]
    ¬ FailsClean options
      ((create 0 0 ++ [.releaseHandle 0, .acquire 7, .obtain 1, .drain, .validated 1 (some true),
        .deliver 1, .start] ++ create 2 1 ++ [.releaseHandle 1, .acquire 8]) ++
        .obtain 3 :: [.create 3 .threw, .execSettled 2 none, .deliver 3]) := by
  -- Follow the run to the eviction, which unbinds the entry that is held.
  intro options create clean
  have traceless := clean.traceless _ _ _ rfl
  generalize came : create 0 0 ++ [.releaseHandle 0, .acquire 7, .obtain 1, .drain,
    .validated 1 (some true), .deliver 1, .start] ++ create 2 1 ++
      [.releaseHandle 1, .acquire 8] = before at traceless
  have ends : (Runs.run (step options) (init options) before).bind (fun s =>
      (s.step options (.obtain 3)).bind fun next =>
        (Runs.run (step options) next
          [.create 3 .threw, .execSettled 2 none, .deliver 3]).bind fun last =>
            (last.acquires[3]?).map fun acquire =>
              (acquire.phase, s.entries.get? 7, next.entries.get? 7,
                s.idle.find? fun node => !s.nodePending node)) =
      some (.rejected .execFailed, some 1, none, some 0) := by
    subst came
    decide +kernel
  obtain ⟨s, ran, ends⟩ := Option.bind_eq_some_iff.mp ends
  obtain ⟨next, stepped, ends⟩ := Option.bind_eq_some_iff.mp ends
  obtain ⟨last, later, ends⟩ := Option.bind_eq_some_iff.mp ends
  obtain ⟨acquire, called, ends⟩ := Option.map_eq_some_iff.mp ends
  simp only [Prod.mk.injEq] at ends
  obtain ⟨phase, bound, unbound, first⟩ := ends
  obtain ⟨discarded, discards, victim, -⟩ :=
    (traceless s next last ran stepped later 3 acquire _ rfl called phase).store
  -- The entry that the key was bound to is not the one that was evicted.
  have kept : discarded ≠ some 1 := by
    rintro rfl
    cases victim 1 rfl with
    | evicted _ other => simp [first] at other
    | refuted a acquire acting => cases acting
  have still := (discards.entries 7 1).mpr ⟨bound, kept⟩
  simp [unbound] at still

end State

end RefPool
