import RefPool.Proofs.Closed
import RefPool.Proofs.Quiescence
import RefPool.Proofs.Waiters

/-! No wakeup is lost until a slot or an idle entry comes free without waking anybody. -/

namespace RefPool

/-- Whether a call is parked on a waiter that has been woken. -/
def Acquire.woken {κ : Type} (waiters : List CapacityWaiter) (acquire : Acquire κ) : Bool :=
  acquire.phase.waiter.any fun w => (waiters[w]?).any fun waiter => waiter.promise = .resolved

section Woken

variable {κ : Type} {gate : Gate} {acquires : List (Acquire κ)} {closed : Bool} {a : AcquireId}
  {acquire : Acquire κ}

/-- A call that is not parked has not been woken. -/
theorem Acquire.woken_of_moving (moving : acquire.phase.waiter = none)
    (waiters : List CapacityWaiter) : acquire.woken waiters = false := by
  -- A woken call is parked on a waiter.
  simp [Acquire.woken, moving]

/-- Settling a waiter puts no woken call back to sleep. -/
theorem Acquire.woken_settle (sound : gate.Sound) (w : WaiterId) (outcome : WaiterPromise)
    (woken : acquire.woken gate.waiters = true) :
    acquire.woken (gate.settleWaiter w outcome).waiters = true := by
  -- Only the waiter that settles is rewritten, and it had not been woken.
  by_cases queued : w ∈ gate.capacityWaiters
  · obtain ⟨waiter, found, awaited, -⟩ := sound.pending queued
    rw [sound.settle_queued queued]
    cases parked : acquire.phase.waiter with
    | none => simp [Acquire.woken, parked] at woken
    | some other =>
      simp only [Acquire.woken, parked, Option.any_some] at woken ⊢
      rw [Arena.getElem?_modify_other _ _ ?_]
      · exact woken
      · rintro rfl
        simp [found, awaited] at woken
  · rw [sound.settle_other queued]
    exact woken

/-- Waking an empty queue leaves it empty. -/
theorem queued_of_wake (queued : gate.wakeCapacityWaiter.capacityWaiters ≠ []) :
    gate.capacityWaiters ≠ [] := by
  -- There is nobody to take off an empty queue.
  intro none
  simp [Gate.wakeCapacityWaiter, none] at queued

/-- Settling a waiter leaves at least as many calls woken. -/
theorem countP_woken_settle (sound : gate.Sound) (w : WaiterId) (outcome : WaiterPromise) :
    acquires.countP (Acquire.woken gate.waiters) ≤
      acquires.countP (Acquire.woken (gate.settleWaiter w outcome).waiters) :=
  -- Who was woken stays so.
  List.countP_mono_left fun _ _ => Acquire.woken_settle sound w outcome

/-- Waking the first of the queue wakes one more call. -/
theorem countP_woken_wake (waiting : Waiting gate acquires closed)
    (queued : gate.capacityWaiters ≠ []) :
    acquires.countP (Acquire.woken gate.waiters) <
      acquires.countP (Acquire.woken gate.wakeCapacityWaiter.waiters) := by
  -- The first in the queue has an owner, which had not been woken before.
  have sound := waiting.sound
  rcases sound.wake_eq with ⟨-, none⟩ | ⟨w, rest, queue, same, -⟩
  · exact absurd none queued
  · have inside : w ∈ gate.capacityWaiters := by simp [queue]
    obtain ⟨waiter, found, awaited, -⟩ := sound.pending inside
    obtain ⟨acquire, called, parked⟩ := waiting.owned w inside
    rw [same]
    refine Arena.countP_lt_of_gain (fun other _ => Acquire.woken_settle sound w .resolved) called
      ?_ ?_
    · simp [Acquire.woken, parked, found, awaited]
    · simp [Acquire.woken, parked, sound.settle_queued inside, found]

/-- A call that moves takes at most its own wakeup with it. -/
theorem countP_woken_move (called : acquires[a]? = some acquire) (phase : Phase)
    (waiters : List CapacityWaiter) :
    acquires.countP (Acquire.woken waiters) ≤
      (acquires.modify a fun acquire => { acquire with phase }).countP (Acquire.woken waiters) +
        if acquire.woken waiters then 1 else 0 := by
  -- The others are woken as before.
  have moved := Arena.countP_modify (fun acquire : Acquire κ => { acquire with phase })
    (Acquire.woken waiters) called
  omega

/-- A call that goes for a slot takes at most one wakeup with it. -/
theorem countP_woken_go (called : acquires[a]? = some acquire) (phase : Phase)
    (waiters : List CapacityWaiter) :
    acquires.countP (Acquire.woken waiters) ≤
      (acquires.modify a fun acquire => { acquire with phase }).countP
        (Acquire.woken waiters) + 1 := by
  -- The count changes by the one call, by one at most.
  have moved := countP_woken_move called phase waiters
  split at moved <;> omega

/-- A call that has not been woken takes no wakeup with it. -/
theorem countP_woken_still (called : acquires[a]? = some acquire) (phase : Phase)
    {waiters : List CapacityWaiter} (asleep : acquire.woken waiters = false) :
    acquires.countP (Acquire.woken waiters) ≤
      (acquires.modify a fun acquire => { acquire with phase }).countP (Acquire.woken waiters) := by
  -- The count changes by the one call, which was not counted.
  have moved := countP_woken_move called phase waiters
  simpa [asleep] using moved

/-- A new call that is not parked has no wakeup. -/
theorem countP_woken_push (moving : acquire.phase.waiter = none) (acquires : List (Acquire κ))
    (waiters : List CapacityWaiter) :
    (acquires ++ [acquire]).countP (Acquire.woken waiters) =
      acquires.countP (Acquire.woken waiters) := by
  -- The new call is not counted.
  rw [List.countP_append, List.countP_singleton, Acquire.woken_of_moving moving]
  rfl

end Woken

namespace State

variable {κ τ : Type} [DecidableEq κ] {options : PoolOptions} {s next : State κ τ}
  {a : AcquireId} {acquire : Acquire κ} {e : EntryId}

/-- A pool at rest is saturated while calls are queued. -/
def NoLostWakeup (options : PoolOptions) (s : State κ τ) : Prop :=
  Quiescent options s → s.capacityWaiters ≠ [] →
    options.max ≤ s.entries.size + s.reserved ∧ ∀ node ∈ s.idle, s.nodePending node = true

/-- Whether a wakeup was lost can be checked. -/
instance (options : PoolOptions) (s : State κ τ) : Decidable (s.NoLostWakeup options) := by
  unfold NoLostWakeup
  infer_instance

/-- Whether dropping a reference of an entry would remove it from the live map. -/
def vacates (s : State κ τ) (e : EntryId) : Bool :=
  s.heap[e]?.any fun entry =>
    entry.refCount = 1 ∧ entry.condemned ∧ s.entries.get? entry.key = some e

/--
Room that comes free while calls are queued is announced to one of them.

The last call of a key to end leaves no idle entry of the key behind, no live entry fails its
validation, and no release removes a condemned entry from the live map: neither wakes anybody.
-/
def Announces (s : State κ τ) (action : Action κ τ) : Prop :=
  s.capacityWaiters = [] ∨ match action with
  | .deliver a => ∀ acquire ∈ s.acquires[a]?, s.toKeyState.pendingOf acquire.key ≤ 1 →
      ∀ node ∈ s.idle, ∀ entry ∈ s.heap[node]?, entry.key = acquire.key →
        acquire.phase = .returned node
  | .validated a (some false) => ∀ acquire ∈ s.acquires[a]?, ∀ live ∈ acquire.phase.examined,
      s.entries.get? acquire.key ≠ some live
  | .releaseHandle h => ∀ handle ∈ s.handles[h]?, handle.released = false →
      s.vacates handle.entry = false
  | .release key => ∀ e ∈ s.entries.get? key, s.vacates e = false
  | _ => True

/-- Whether a step announces the room it makes can be checked. -/
instance (s : State κ τ) (action : Action κ τ) : Decidable (s.Announces action) := by
  induction action using Action.casesOn with
  | validated a verdict =>
    match verdict with
    | none | some true | some false => unfold Announces; infer_instance
  | _ => unfold Announces; infer_instance

/-- How many slots are free below the bound. -/
def room (options : PoolOptions) (s : State κ τ) : Nat :=
  (options.max - (s.entries.size + s.reserved)).toNat

/-- How many idle entries could be evicted. -/
def spare (s : State κ τ) : Nat := s.idle.countP fun node => !s.nodePending node

/-- How many calls have been woken and not gone on. -/
def wakeups (s : State κ τ) : Nat := s.acquires.countP (Acquire.woken s.waiters)

/-- While calls are queued, a woken one is on its way to each free slot and evictable entry. -/
def Announced (options : PoolOptions) (s : State κ τ) : Prop :=
  s.capacityWaiters ≠ [] → s.room options + s.spare ≤ s.wakeups

/-- A step that makes no more room than it wakes calls for keeps all room announced. -/
theorem Announced.balance (announced : s.Announced options)
    (queue : next.capacityWaiters ≠ [] → s.capacityWaiters ≠ [])
    (balance : s.capacityWaiters ≠ [] →
      next.room options + next.spare + s.wakeups ≤ s.room options + s.spare + next.wakeups) :
    next.Announced options := by
  -- The surplus of wakeups does not shrink.
  intro queued
  have before := announced (queue queued)
  have moved := balance (queue queued)
  omega

/-- A step that makes no room, and keeps the woken calls, keeps all room announced. -/
theorem Announced.of_no_room (announced : s.Announced options)
    (queue : next.capacityWaiters ≠ [] → s.capacityWaiters ≠ [])
    (size : (s.entries.size : Int) + s.reserved ≤ next.entries.size + next.reserved)
    (fewer : next.spare ≤ s.spare) (woken : s.wakeups ≤ next.wakeups) :
    next.Announced options := by
  -- The room is what the size leaves below the bound.
  refine announced.balance queue fun _ => ?_
  unfold room
  omega

/-- A step that wakes a call may free a slot or leave one more entry to evict. -/
theorem Announced.of_wakeup (announced : s.Announced options)
    (queue : next.capacityWaiters ≠ [] → s.capacityWaiters ≠ [])
    (room : next.room options + next.spare ≤ s.room options + s.spare + 1)
    (woken : s.capacityWaiters ≠ [] → s.wakeups < next.wakeups) : next.Announced options := by
  -- The new wakeup pays for the room made.
  refine announced.balance queue fun queued => ?_
  have more := woken queued
  omega

omit [DecidableEq κ] in
/-- Slots freed are room made. -/
theorem room_le (freed : Nat)
    (size : (s.entries.size : Int) + s.reserved ≤ next.entries.size + next.reserved + freed) :
    next.room options ≤ s.room options + freed := by
  -- The room is what the size leaves below the bound.
  unfold room
  omega

/-- An entry that eviction has to skip is still skipped where no mark of its key goes. -/
theorem nodePending_mono (grows : s.toStore.Grows next.toStore)
    (marks : ∀ key, s.toKeyState.isPending key = true → next.toKeyState.isPending key = true)
    {node : EntryId} (pending : s.nodePending node = true) : next.nodePending node = true := by
  -- The entry keeps its key, and the key its mark.
  cases found : s.heap[node]? with
  | none => simp [nodePending, found] at pending
  | some entry =>
    obtain ⟨after, present, same⟩ := grows.entry node entry found
    rw [nodePending_of_found found] at pending
    rw [nodePending_of_found present, same.key]
    exact marks entry.key pending

/-- A list has no more to evict than one that contains it, where nodes are skipped as before. -/
theorem spare_le_countP {nodes : List EntryId} (kept : next.idle.Sublist nodes)
    (marked : ∀ node ∈ next.idle, s.nodePending node = true → next.nodePending node = true) :
    next.spare ≤ nodes.countP fun node => !s.nodePending node := by
  -- A node that may be evicted now could be evicted before.
  refine Nat.le_trans (List.countP_mono_left fun node inside spared => ?_) kept.countP_le
  cases pending : s.nodePending node with
  | false => rfl
  | true => simp [marked node inside pending] at spared

/-- A list without new nodes has no more to evict where the nodes left are skipped as before. -/
theorem spare_le (kept : next.idle.Sublist s.idle)
    (marked : ∀ node ∈ next.idle, s.nodePending node = true → next.nodePending node = true) :
    next.spare ≤ s.spare :=
  -- Each node counted after the step was counted before it.
  spare_le_countP kept marked

/-- A list with at most one new node has at most one more to evict. -/
theorem spare_le_append (kept : next.idle.Sublist (s.idle ++ [e]))
    (marked : ∀ node ∈ next.idle, s.nodePending node = true → next.nodePending node = true) :
    next.spare ≤ s.spare + 1 := by
  -- The new node counts for one at most.
  have fewer := spare_le_countP kept marked
  rw [List.countP_append, List.countP_singleton] at fewer
  unfold spare at fewer ⊢
  split at fewer <;> omega

/-- A new node that eviction has to skip is none to evict. -/
theorem spare_le_new (kept : next.idle = s.idle ++ [e])
    (marked : ∀ node, s.nodePending node = true → next.nodePending node = true)
    (mine : next.nodePending e = true) : next.spare ≤ s.spare := by
  -- The new node counts for nothing, and the others as before.
  have fewer : (s.idle.countP fun node => !next.nodePending node) ≤ s.spare :=
    List.countP_mono_left fun node _ spared => by
      cases pending : s.nodePending node with
      | false => rfl
      | true => simp [marked node pending] at spared
  unfold spare
  rw [kept, List.countP_append, List.countP_singleton, mine]
  exact fewer

/-- Evicting a listed entry that may go leaves one less to evict. -/
theorem spare_evict (wf : s.toStore.WellFormed) (listed : e ∈ s.idle)
    (spared : s.nodePending e = false) (reason : EvictReason) :
    (s.evict e reason).spare + 1 ≤ s.spare := by
  -- The entry is off the list, and none of the others loses its mark.
  obtain ⟨entry, found, flagged⟩ := wf.listed e listed
  have idle : (s.evict e reason).idle = s.idle.erase e := by
    show ((s.toStore.unlink e).beginDispose e).idle = _
    rw [Store.beginDispose_idle, Store.unlink_idle, Store.idleRemove_idle found flagged]
  have erased : (s.idle.erase e).countP (fun node => !s.nodePending node) + 1 = s.spare := by
    rw [spare, (List.perm_cons_erase listed).countP_eq, List.countP_cons_of_pos (by simp [spared])]
  have kept : (s.evict e reason).spare ≤
      (s.idle.erase e).countP fun node => !s.nodePending node := by
    have kept : s.toStore.Kept (s.evict e reason).toStore := .evict e
    refine spare_le_countP ?_ fun node _ => nodePending_mono kept.grows fun _ => id
    rw [idle]
  omega

/-- A turn of the reservation loop keeps all room announced. -/
theorem SlotEffect.announced (effect : SlotEffect options s a next) (bounded : 0 < options.max)
    (wf : s.toStore.WellFormed) (waiting : Waiting s.toGate s.acquires s.closed)
    (called : s.acquires[a]? = some acquire) (announced : s.Announced options) :
    next.Announced options := by
  -- Each outcome of the turn is weighed against the wakeup that the call may have come with.
  cases effect with
  | unbounded disabled => omega
  | refused _ closed =>
    intro queued
    exact absurd (waiting.shut closed) queued
  | reserved _ _ free =>
    -- The slot it takes pays for the wakeup it may have come with.
    refine announced.balance id fun _ => ?_
    have moved := countP_woken_go called .granted s.waiters
    change (options.max - (s.entries.size + (s.reserved + 1))).toNat + s.spare + s.wakeups ≤
      s.room options + s.spare + List.countP (Acquire.woken s.waiters)
        (s.acquires.modify a fun acquire => { acquire with phase := .granted })
    unfold room wakeups
    omega
  -- The slot of the victim is taken at once, and the list is one entry shorter.
  | evicted victim _ _ full listed spared =>
    refine announced.balance id fun _ => ?_
    have moved := countP_woken_go called .granted s.waiters
    have less := spare_evict wf listed spared .lru
    obtain ⟨entry, found, -⟩ := wf.listed victim listed
    have size : s.entries.size ≤ (s.evict victim .lru).entries.size + 1 := by
      show _ ≤ ((s.toStore.unlink victim).beginDispose victim).entries.size + 1
      rw [Store.evict_entries _ _ found]
      exact OrderedMap.size_le_delete s.entries entry.key
    change (options.max - ((s.evict victim .lru).entries.size + (s.reserved + 1))).toNat +
      (s.evict victim .lru).spare + s.wakeups ≤
      s.room options + s.spare + List.countP (Acquire.woken s.waiters)
        (s.acquires.modify a fun acquire => { acquire with phase := .granted })
    unfold room wakeups
    omega
  | exhausted _ _ full busy | parked _ _ full busy =>
    -- There is no room to announce.
    intro _
    have none : s.spare = 0 := by simpa [spare, List.countP_eq_zero] using busy
    change (options.max - (s.entries.size + s.reserved)).toNat + s.spare ≤ _
    omega

/-- `obtain` from the orphan lookup on keeps all room announced. -/
theorem MissEffect.announced {key : κ} (effect : MissEffect options s a key next)
    (bounded : 0 < options.max) (wf : s.toStore.WellFormed)
    (waiting : Waiting s.toGate s.acquires s.closed) (called : s.acquires[a]? = some acquire)
    (moving : acquire.phase.waiter = none) (announced : s.Announced options) :
    next.Announced options := by
  -- An orphan only takes room, and a closed pool has nobody queued.
  cases effect with
  | resurrected e bound =>
    have size := OrderedMap.size_set_of_none e (wf.not_live_of_orphaned bound)
    refine announced.of_no_room id ?_ (Nat.le_refl _)
      (countP_woken_still called _ (Acquire.woken_of_moving moving s.waiters))
    show (s.entries.size : Int) + s.reserved ≤ (s.entries.set key e).size + s.reserved
    omega
  | refused _ closed =>
    intro queued
    exact absurd (waiting.shut closed) queued
  | slot _ _ _ effect => exact effect.announced bounded wf waiting called announced

/-- Dropping a reference keeps all room announced, unless it vacates a live key. -/
theorem ReleaseEffect.announced (effect : ReleaseEffect s e next) (wf : s.toStore.WellFormed)
    (waiting : Waiting s.toGate s.acquires s.closed)
    (told : s.capacityWaiters = [] ∨ s.vacates e = false) (announced : s.Announced options) :
    next.Announced options := by
  -- No mark goes with a reference, so what is skipped stays skipped.
  have marked (node : EntryId) (pending : s.nodePending node = true) :
      next.nodePending node = true := by
    refine nodePending_mono effect.grows (fun key => ?_) pending
    rw [effect.sameCalls.keys]
    exact id
  cases effect with
  | ignored => exact announced
  | dropped =>
    exact announced.of_no_room id (Int.le_refl _)
      (spare_le (List.Sublist.refl _) fun node _ => marked node)
      (Nat.le_refl _)
  -- The entry removed was no live one, so that no slot comes free.
  | retired entry found undisposed last doomed =>
    rcases told with none | stays
    · exact fun queued => absurd none queued
    have condemned : entry.condemned = true :=
      doomed.elim id fun bound => (wf.orphaned_at bound found).condemned
    have unbound : s.entries.get? entry.key ≠ some e := by
      simpa [vacates, found, last, condemned] using stays
    refine announced.of_no_room id ?_ (spare_le ?_ fun node _ => marked node) (Nat.le_refl _)
    · have found' := Arena.getElem?_modify_self (lastDrop s.now) found
      show (s.entries.size : Int) + s.reserved ≤
        ((((s.dropReference e).stampReleased e).toStore.removeEntry e).beginDispose
          e).entries.size + s.reserved
      rw [stampReleased_dropReference, Store.discard_entries _ _ found']
      simp [OrderedMap.deleteBinding, lastDrop, unbound]
    · show ((((s.dropReference e).stampReleased e).toStore.removeEntry e).beginDispose
        e).idle.Sublist _
      rw [Store.beginDispose_idle, Store.removeEntry_idle]
      exact Store.idleRemove_sublist
  -- The entry freed is one more to evict, and somebody is woken for it.
  | freed entry found =>
    refine announced.of_wakeup queued_of_wake ?_ (countP_woken_wake waiting)
    have size : s.toGate.wakeCapacityWaiter.reserved = s.reserved := by simp
    have entries : (((s.dropReference e).stampReleased e).toStore.idleAppend e).entries =
        s.entries := Store.idleAppend_entries _ e
    have listed : (((s.dropReference e).stampReleased e).toStore.idleAppend e).idle.Sublist
        (s.idle ++ [e]) := Store.idleAppend_sublist
    have more := spare_le_append listed fun node _ => marked node
    have same : State.room options ({ (s.dropReference e).stampReleased e with
        toStore := ((s.dropReference e).stampReleased e).toStore.idleAppend
          e }.wakeCapacityWaiter) ≤ s.room options + 0 := by
      refine room_le 0 ?_
      show _ ≤ (((((s.dropReference e).stampReleased e).toStore.idleAppend e).entries.size : Int) +
        s.toGate.wakeCapacityWaiter.reserved + 0)
      rw [entries, size]
      omega
    omega

/-- Giving a reservation back frees a slot and wakes a call for it. -/
theorem Announced.releaseReservation (announced : s.Announced options)
    (waiting : Waiting s.toGate s.acquires s.closed) :
    s.releaseReservation.Announced options := by
  -- The slot freed is the room made.
  refine announced.of_wakeup queued_of_wake ?_
    (countP_woken_wake (waiting.setReserved (s.reserved - 1)))
  have more : s.releaseReservation.room options ≤ s.room options + 1 := by
    refine room_le 1 ?_
    show _ ≤ (s.entries.size : Int) + s.toGate.releaseReservation.reserved + 1
    rw [Gate.releaseReservation_reserved]
    omega
  have same : s.releaseReservation.spare = s.spare := rfl
  omega

/-- A sweep keeps all room announced: it wakes a call for each entry that goes. -/
theorem announced_sweep (wf : s.toStore.WellFormed)
    (waiting : Waiting s.toGate s.acquires s.closed) (announced : s.Announced options) :
    (s.sweep options).Announced options := by
  -- Each turn frees a slot at most, takes an entry off the list, and wakes a call.
  refine (sweep_rule options
    (P := fun next => Waiting next.toGate next.acquires next.closed ∧ next.Announced options)
    wf ?_ (fun _ _ => id) ⟨waiting, announced⟩).2.2
  rintro next node entry wf ⟨waiting, announced⟩ found listed spared
  refine ⟨waiting.wake, announced.of_wakeup queued_of_wake ?_ (countP_woken_wake waiting)⟩
  have less : ((next.evict node .ttl).wakeCapacityWaiter).spare + 1 ≤ next.spare :=
    spare_evict wf listed spared .ttl
  have entries := Store.evict_entries next.toStore node found
  have size := OrderedMap.size_le_delete next.entries entry.key
  have reserved : next.toGate.wakeCapacityWaiter.reserved = next.reserved := by simp
  have more : State.room options ((next.evict node .ttl).wakeCapacityWaiter) ≤
      next.room options + 1 := by
    refine room_le 1 ?_
    show _ ≤ ((((next.toStore.unlink node).beginDispose node).entries.size : Int) +
      next.toGate.wakeCapacityWaiter.reserved + 1)
    rw [entries, reserved]
    omega
  omega

/-- The end of a call takes one mark off its key and off no other. -/
theorem pendingOf_deliver (s : State κ τ) (a : AcquireId) (acquire : Acquire κ)
    (outcome : Except PoolError EntryId) (key : κ) :
    (s.deliver a acquire outcome).toKeyState.pendingOf key =
      if key = acquire.key then s.toKeyState.pendingOf key - 1
      else s.toKeyState.pendingOf key := by
  -- The mutex keeps no marks, and the outcome decides only where the call ends.
  have kept (c : CellId) : (s.toKeyState.settled acquire.key c s.now).pendingOf =
      s.toKeyState.pendingOf := by
    funext other
    simp [KeyState.pendingOf]
  have unmarked : (if key = acquire.key then s.toKeyState.pendingOf acquire.key - 1
      else s.toKeyState.pendingOf key) = if key = acquire.key then s.toKeyState.pendingOf key - 1
      else s.toKeyState.pendingOf key := by
    split <;> simp_all
  cases outcome <;> cases cell : acquire.cell <;>
    simp [deliver, cell, conclude, setPhase, checkout, emitFor, KeyState.pendingOf_decPending, kept,
      unmarked]

/-- The end of a call keeps all room announced, unless it unmarks an idle entry it leaves. -/
theorem announced_deliver {outcome : Except PoolError EntryId}
    (called : s.acquires[a]? = some acquire) (moving : acquire.phase.waiter = none)
    (grows : s.toStore.Grows (s.deliver a acquire outcome).toStore)
    (left : s.toKeyState.pendingOf acquire.key ≤ 1 →
      ∀ node ∈ (s.deliver a acquire outcome).idle, ∀ entry ∈ s.heap[node]?,
        entry.key ≠ acquire.key)
    (store : (s.deliver a acquire outcome).entries = s.entries ∧
      (s.deliver a acquire outcome).idle.Sublist s.idle) (announced : s.Announced options) :
    (s.deliver a acquire outcome).Announced options := by
  -- Only the marks of the key change; the gate and the live map stay as they are.
  have gate : (s.deliver a acquire outcome).toGate = s.toGate := by cases outcome <;> rfl
  have acquires : ∃ phase, (s.deliver a acquire outcome).acquires =
      s.acquires.modify a fun acquire => { acquire with phase } := by
    cases outcome <;> exact ⟨_, rfl⟩
  obtain ⟨phase, acquires⟩ := acquires
  refine announced.of_no_room (by rw [gate]; exact id)
    (Int.le_of_eq (by rw [gate, store.1])) (spare_le store.2 ?_) ?_
  · intro node inside pending
    cases found : s.heap[node]? with
    | none => simp [nodePending, found] at pending
    | some entry =>
      obtain ⟨after, present, same⟩ := grows.entry node entry found
      simp only [nodePending, found, KeyState.isPending, decide_eq_true_eq] at pending
      simp only [nodePending, present, same.key, KeyState.isPending, decide_eq_true_eq,
        pendingOf_deliver]
      split
      · rename_i own
        -- The key keeps a mark, or the node would be one that the call leaves unmarked.
        by_contra unmarked
        rw [own] at pending unmarked
        exact left (by omega) node inside entry found own
      · exact pending
  · unfold wakeups
    rw [gate, acquires]
    exact countP_woken_still called phase (Acquire.woken_of_moving moving s.waiters)

/-- Sharing a held entry makes no room. -/
theorem announced_shared {key : κ} {e : EntryId} {entry : Entry κ τ}
    (found : s.heap[e]? = some entry) (held : 0 < entry.refCount)
    (grows : s.toStore.Grows (s.toStore.checkout e)) (announced : s.Announced options) :
    ((({ s with
      toKeyState := s.toKeyState.incPending key
      acquires := s.acquires ++
        [({ key, cell := none, phase := .queued none } : Acquire κ)] }.hit).checkout e).conclude
      s.acquires.length key (.fulfilled s.handles.length)).Announced options := by
  refine announced.of_no_room id ?_ (spare_le ?_ fun node _ => nodePending_mono grows ?_) ?_
  · show _ ≤ ((s.toStore.checkout e).entries.size : Int) + s.reserved
    exact Int.le_of_eq (by rw [Store.checkout_entries])
  · show (s.toStore.checkout e).idle.Sublist _
    rw [(Store.checkout_further found held).1]
  -- The mark of the call is taken off before anything else runs.
  · intro other pending
    show ((s.toKeyState.incPending key).decPending key).isPending other = true
    rwa [KeyState.isPending, KeyState.pendingOf_passing]
  · unfold wakeups
    have settled : (⟨key, none, .fulfilled s.handles.length⟩ : Acquire κ).phase.waiter = none :=
      rfl
    have pushed := countP_woken_push settled s.acquires s.waiters
    rw [← shared_acquires] at pushed
    exact Nat.le_of_eq pushed.symm

/-- Disposing of a refuted entry makes no room where it is not live any more. -/
theorem announced_refuted {live : EntryId} (core : Core s) (called : s.acquires[a]? = some acquire)
    (phase : acquire.phase = .validating live)
    (grows : s.toStore.Grows
      ({ s with toStore := s.toStore.removeEntry live }.dispose live).toStore)
    (unbound : s.entries.get? acquire.key ≠ some live) (announced : s.Announced options) :
    (({ s with toStore := s.toStore.removeEntry live }.dispose live).setPhase a
      (.discarding live)).Announced options := by
  obtain ⟨entry, found, key, -⟩ := core.fits called phase
  -- The key is bound to another entry, so nothing live is removed.
  refine announced.of_no_room id ?_
    (spare_le ?_ fun node _ => nodePending_mono grows fun _ => id)
    (countP_woken_still called _ (Acquire.woken_of_moving (by rw [phase]; rfl) s.waiters))
  · show _ ≤ (((s.toStore.removeEntry live).beginDispose live).entries.size : Int) + s.reserved
    exact Int.le_of_eq (by
      rw [Store.discard_entries _ _ found, key, OrderedMap.deleteBinding, if_neg unbound])
  · show ((s.toStore.removeEntry live).beginDispose live).idle.Sublist _
    rw [Store.beginDispose_idle, Store.removeEntry_idle]
    exact Store.idleRemove_sublist

/-- A new entry takes the slot reserved for it, and its key is marked. -/
theorem announced_inserted {x : ExecId} {exec : Exec κ τ} {resource : τ} (core : Core s)
    (found : s.execs[x]? = some exec) (outstanding : exec.outcome = .pending)
    (grows : s.toStore.Grows (s.insertEntry exec.key resource).toStore)
    (announced : s.Announced options) :
    (({ s with
      execs := s.execs.modify x fun exec =>
        { exec with outcome := .fulfilled resource } }.insertEntry exec.key
      resource).setPhase exec.acquire (.returned s.heap.length)).Announced options := by
  obtain ⟨acquire, called, key, phase⟩ := core.execs.awaited x exec found outstanding
  have fits := core.phases exec.acquire acquire called
  rw [phase, key] at fits
  have pending := pending_of_called core called (by rw [phase]; simp [Phase.stage])
  -- The reservation becomes an entry, whose key is marked by the call that made it.
  refine announced.of_no_room id ?_ ?_
    (countP_woken_still called _ (Acquire.woken_of_moving (by rw [phase]; rfl) s.waiters))
  · have size := OrderedMap.size_set_of_none s.heap.length fits.1
    show _ ≤ ((s.toStore.insert exec.key resource s.now).entries.size : Int) + (s.reserved - 1)
    rw [Store.insert, Store.idleAppend_entries, size]
    omega
  · refine spare_le_new (e := s.heap.length) ?_
      (fun node => nodePending_mono grows fun _ => id) ?_
    · show (s.toStore.insert exec.key resource s.now).idle = _
      simp [Store.insert, Store.idleAppend]
    · have fresh := insert_heap_new s.toStore exec.key resource s.now
      exact (nodePending_of_found fresh).trans (key ▸ pending)

/-- Every step that announces the room it makes keeps all room announced. -/
theorem Effect.announced {action : Action κ τ} (core : Core s)
    (effect : Effect options s action next) (bounded : 0 < options.max)
    (waiting : Waiting s.toGate s.acquires s.closed) (told : s.Announces action)
    (announced : s.Announced options) : next.Announced options := by
  have wf := core.store
  have grows := effect.grows wf
  have after := effect.waiting core waiting
  -- Moving a call that is not parked, and touching nothing else, makes no room.
  have moved {s : State κ τ} {a : AcquireId} {acquire : Acquire κ}
      (called : s.acquires[a]? = some acquire) (moving : acquire.phase.waiter = none)
      (phase : Phase) (announced : s.Announced options) : (s.setPhase a phase).Announced options :=
    announced.of_no_room id (Int.le_refl _) (Nat.le_refl _)
      (countP_woken_still called phase (Acquire.woken_of_moving moving s.waiters))
  cases effect with
  | shared key e entry bound found undisposed held =>
    exact announced_shared found held grows announced
  -- A new mark only lets eviction skip more.
  | queued key =>
    exact announced.of_no_room id (Int.le_refl _)
      (spare_le (.refl _) fun node _ => nodePending_mono grows fun _ =>
        KeyState.isPending_enqueue s.acquires.length s.now)
      (Nat.le_of_eq (countP_woken_push rfl s.acquires s.waiters).symm)
  | released h handle next found holding effect =>
    exact effect.announced wf waiting (told.imp id fun told => told handle found holding) announced
  | releasedKey key e next bound effect =>
    refine effect.announced wf waiting (told.imp id fun told => ?_) announced
    rcases bound with live | orphaned
    · exact told e live
    · obtain ⟨entry, found, promised⟩ := wf.orphaned key e orphaned
      have absent := wf.not_live_of_orphaned orphaned
      simp [vacates, found, promised.key, absent]
  -- A closed pool has nobody queued.
  | drain =>
    intro queued
    exact absurd (after.shut (staysClosed_drain wf).2) queued
  | stop =>
    intro queued
    exact absurd (after.shut (staysClosed_drain (s := s.setClosed.stopTimers) wf).2) queued
  | sweep => exact announced_sweep wf waiting announced
  -- The collection takes no mutex in use, and so no mark.
  | gcKeyState keys bank collected =>
    have same : keys = s.toKeyState := by
      rcases collected with same | ⟨cutoff, same⟩
      · exact same
      · rw [same, core.chained.gcMutexes_eq]
    subst same
    exact announced
  -- A timeout wakes nobody, and queues nobody.
  | timeout w =>
    exact announced.of_no_room (fun queued none => queued (by
        rw [List.eq_nil_iff_forall_not_mem]
        intro other inside
        simpa [none] using (Gate.settleWaiter_less s.toGate w _).2 other inside))
      (by simp) (Nat.le_refl _) (countP_woken_settle waiting.sound w _)
  | missed a acquire after next called phase turn absent effect =>
    exact effect.announced bounded wf waiting called (by rw [phase]; rfl) announced
  | discarded a acquire live next called phase effect =>
    exact effect.announced bounded wf waiting called (by rw [phase]; rfl) announced
  | resumed a acquire w waiter next called phase found woken effect =>
    exact effect.announced bounded wf waiting called announced
  | abandoned a acquire w waiter error called phase found rejected =>
    exact announced.of_no_room id (Int.le_refl _) (Nat.le_refl _) (countP_woken_still called _
      (by simp [Acquire.woken, phase, Phase.waiter, found, rejected]))
  -- These moves make no room.
  | validating a acquire after e entry called phase =>
    exact moved called (by rw [phase]; rfl) _ announced
  | returned a acquire after e entry called phase =>
    exact moved (s := s.hit) called (by rw [phase]; rfl) _ announced
  | creating a acquire answer bank called phase =>
    exact moved called (by rw [phase]; rfl) _ announced
  | unvalidated a acquire live called phase | lateDisposeSettled a acquire called phase =>
    exact moved called (by rw [phase]; rfl) _ announced
  | passed a acquire live called phase =>
    exact moved (s := s.hit) called (by rw [phase]; rfl) _ announced
  -- The reservation that comes free wakes a call.
  | breakerless a acquire answer called phase =>
    exact moved (s := s.releaseReservation) called (by rw [phase]; rfl) _
      (announced.releaseReservation waiting)
  | execRejected x exec found outstanding =>
    obtain ⟨acquire, called, -, phase⟩ := core.execs.awaited x exec found outstanding
    exact moved (s := s.releaseReservation) called (by rw [phase]; rfl) _
      (announced.releaseReservation waiting)
  | execLate x exec resource found outstanding =>
    obtain ⟨acquire, called, -, phase⟩ := core.execs.awaited x exec found outstanding
    exact moved (s := s.releaseReservation) called (by rw [phase]; rfl) _
      (announced.releaseReservation waiting)
  | delivered a acquire e called phase =>
    rcases told with none | told
    · exact fun queued => absurd none queued
    refine announced_deliver called (by rw [phase]; rfl) grows
      (fun last node inside entry found same => ?_)
      ⟨Store.checkout_entries s.toStore e, Store.checkout_sublist⟩ announced
    -- The entry that is checked out leaves the idle list.
    have listed := Store.checkout_sublist.subset inside
    have own := told acquire called last node listed entry found same
    cases phase.symm.trans own
    exact wf.not_mem_checkout e inside
  -- A call that failed leaves no entry of its own.
  | failed a acquire error called phase =>
    rcases told with none | told
    · exact fun queued => absurd none queued
    refine announced_deliver called (by rw [phase]; rfl) grows
      (fun last node inside entry found same => ?_)
      ⟨rfl, .refl _⟩ announced
    have own := told acquire called last node inside entry found same
    simp [phase] at own
  -- The refuted entry had left the live map before.
  | refuted a acquire live called phase =>
    rcases told with none | told
    · exact fun queued => absurd none queued
    exact announced_refuted core called phase grows (told acquire called live (by rw [phase]; rfl))
      announced
  | inserted x exec resource found outstanding =>
    exact announced_inserted core found outstanding grows announced
  | disposeSettled e entry found =>
    exact announced.of_no_room id (Int.le_refl _)
      (spare_le (.refl _) fun node _ => nodePending_mono grows fun _ => id) (Nat.le_refl _)
  | releasedAgain | releasedNone | start | emitStats | clock | drained | factoryCalled
  | factorySettled | breakerChanged => exact announced

/-- A pool at rest whose room is all announced has no room while calls are queued. -/
theorem noLostWakeup_of_announced (announced : s.Announced options) : s.NoLostWakeup options := by
  intro quiet queued
  -- A woken call could go on.
  have none : s.wakeups = 0 := by
    rw [wakeups, List.countP_eq_zero]
    intro acquire inside woken
    obtain ⟨a, called⟩ := List.mem_iff_getElem?.mp inside
    have stuck := quiet.stuck called
    cases phase : acquire.phase <;> simp [Acquire.woken, phase, Phase.waiter] at woken
    rename_i w
    rw [phase] at stuck
    obtain ⟨waiter, found, resolved⟩ := Option.any_eq_true _ _ |>.mp woken
    simp [stuck waiter found] at resolved
  have all := announced queued
  rw [none] at all
  have full : s.room options = 0 := by omega
  have busy : s.spare = 0 := by omega
  refine ⟨by unfold room at full; omega, ?_⟩
  simpa [spare, List.countP_eq_zero] using busy

/-- In a bounded pool whose room is announced no wakeup is lost throughout any run. -/
theorem noLostWakeup_throughout (options : PoolOptions) (bounded : 0 < options.max)
    (actions : List (Action κ τ))
    (told : Runs.Guarded (step options) Announces (init options) actions) :
    Runs.Throughout (step options) (NoLostWakeup options) (init options) actions := by
  -- The invariant is carried along with the agreement of queue and calls.
  have kept := told.throughout
    (fun s => Core s ∧ Waiting s.toGate s.acquires s.closed ∧ s.Announced options)
    (fun s action next ⟨core, waiting, announced⟩ told stepped =>
      have effect := step_effect stepped
      ⟨core_step core stepped, effect.waiting core waiting,
        effect.announced core bounded waiting told announced⟩)
    ⟨core_init options, waiting_init options, fun queued => absurd rfl queued⟩
  exact kept.mono fun s ⟨_, _, announced⟩ => noLostWakeup_of_announced announced

/-- A run in which the release of one key lets a queued acquire of another go on. -/
theorem noLostWakeup_throughout_released :
    let options : PoolOptions := { max := 1 }
    let create (key a : Nat) : List (Action Nat Nat) :=
      [.create a .threw, .factoryCalled a, .factorySettled a (some key),
        .execSettled a (some key), .deliver a]
    Runs.Throughout (step options) (NoLostWakeup options) (init options)
      ([.acquire 7, .obtain 0] ++ create 7 0 ++ [.acquire 8, .obtain 1, .releaseHandle 0,
        .resume 1] ++ create 8 1) :=
  -- The release wakes the parked call, which resumes.
  noLostWakeup_throughout _ (by decide) _ (by decide)

/-- A validation rejects, and the idle entry it leaves is not offered to the queued acquire. -/
theorem noLostWakeup_unvalidated :
    let options : PoolOptions := { max := 1, validate := true }
    let create : List (Action Nat Nat) :=
      [.acquire 7, .obtain 0, .create 0 .threw, .factoryCalled 0, .factorySettled 0 (some 70),
        .execSettled 0 (some 70), .deliver 0, .releaseHandle 0]
    ¬ Runs.Throughout (step options) (NoLostWakeup options) (init options)
      (create ++ [.acquire 7, .obtain 1, .acquire 8, .obtain 2, .validated 1 none,
        .deliver 1]) := by
  -- The rejected validation leaves the entry idle, and wakes nobody.
  decide

end State

end RefPool
