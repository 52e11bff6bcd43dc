import RefPool.Proofs.Undrained

/-! Which flags of the idle list can be trusted: those of live entries and of claimed ones. -/

namespace RefPool

variable {κ τ : Type} [DecidableEq κ]

namespace Store

variable {store next : Store κ τ} {e touched : EntryId} {entry : Entry κ τ}

/-- An entry that is flagged or held is bound under its key. -/
def Anchored (store : Store κ τ) (e : EntryId) : Prop :=
  ∀ entry, store.heap[e]? = some entry → entry.inIdle = true ∨ 0 < entry.refCount →
    store.entries.get? entry.key = some e ∨ store.orphans.get? entry.key = some e

/-- A live entry that is flagged is listed. -/
def Listed (store : Store κ τ) : Prop :=
  ∀ key e entry, store.entries.get? key = some e → store.heap[e]? = some entry →
    entry.inIdle = true → e ∈ store.idle

/-- A bound entry is anchored, whatever its fields say. -/
theorem anchored_of_bound (wf : store.WellFormed) {key : κ}
    (bound : store.entries.get? key = some e ∨ store.orphans.get? key = some e) :
    store.Anchored e := by
  -- An entry is bound under its own key.
  intro entry found _
  rcases bound with bound | bound
  · exact .inl ((wf.live_at bound found).key ▸ bound)
  · exact .inr ((wf.orphaned_at bound found).key ▸ bound)

/-- An entry that is neither flagged nor held needs no anchor. -/
theorem anchored_of_spent (spent : ∀ entry, store.heap[e]? = some entry →
    entry.inIdle = false ∧ entry.refCount = 0) : store.Anchored e := by
  -- What needs an anchor is flagged or held.
  intro entry found marked
  obtain ⟨lowered, unheld⟩ := spent entry found
  rcases marked with raised | held
  · simp [lowered] at raised
  · omega

/-- An anchored entry that is flagged is listed. -/
theorem Anchored.listed (anchored : store.Anchored e) (wf : store.WellFormed)
    (listed : store.Listed) (found : store.heap[e]? = some entry) (raised : entry.inIdle = true) :
    e ∈ store.idle := by
  -- Orphans are held, and a held entry is not flagged.
  rcases anchored entry found (.inl raised) with bound | bound
  · exact listed _ e entry bound found raised
  · have held := (wf.orphaned_at bound found).held
    have unheld := (wf.sound e entry found).flagged raised
    omega

/-- An operation on one entry has only that entry to anchor. -/
theorem Anchored.only (anchored : store.Anchored e) (only : OnlyEntry touched store next)
    (own : e = touched → next.Anchored e) : next.Anchored e := by
  by_cases same : e = touched
  · exact own same
  -- The bindings of another entry are where they were.
  · intro entry found marked
    rw [only.heap e same] at found
    rw [only.entries _ e same, only.orphans _ e same]
    exact anchored entry found marked

/-- Evicting an entry of another key leaves an entry anchored. -/
theorem Anchored.evict (anchored : store.Anchored e) (found : store.heap[touched]? = some entry)
    (other : ∀ record, store.heap[e]? = some record → record.key ≠ entry.key) :
    ((store.unlink touched).beginDispose touched).Anchored e := by
  -- What is deleted is the key of the evicted entry, whatever it is bound to.
  intro after read marked
  have differ : touched ≠ e := by
    rintro rfl
    exact other entry found rfl
  rw [evict_heap, Arena.getElem?_modify_other _ _ differ] at read
  rw [evict_entries _ _ found, OrderedMap.get?_delete_ne _ (other after read), beginDispose_orphans,
    unlink_orphans]
  exact anchored after read marked

/-- An evicted entry is neither flagged nor held. -/
theorem anchored_evicted (found : store.heap[e]? = some entry) (unheld : entry.refCount = 0) :
    ((store.unlink e).beginDispose e).Anchored e := by
  -- The eviction takes the flag down, and nobody holds the entry.
  refine anchored_of_spent fun after read => ?_
  rw [evict_heap, Arena.getElem?_modify_self _ found] at read
  cases read
  exact ⟨rfl, unheld⟩

/-- A discarded entry is neither flagged nor held. -/
theorem anchored_discarded (found : store.heap[e]? = some entry) (unheld : entry.refCount = 0) :
    ((store.removeEntry e).beginDispose e).Anchored e := by
  -- Discarding takes the flag down, and nobody holds the entry.
  refine anchored_of_spent fun after read => ?_
  rw [discard_heap, Arena.getElem?_modify_self _ found] at read
  cases read
  exact ⟨rfl, unheld⟩

/--
The rule for operations on one entry that bind no other.

Only the entry itself has to be listed, where it is still live and flagged.
-/
theorem Listed.only (listed : store.Listed) (touched : EntryId)
    (heap : ∀ other, other ≠ touched → next.heap[other]? = store.heap[other]?)
    (entries : ∀ key other, other ≠ touched → next.entries.get? key = some other →
      store.entries.get? key = some other)
    (idle : ∀ other, other ≠ touched → other ∈ store.idle → other ∈ next.idle)
    (own : ∀ key entry, next.entries.get? key = some touched →
      next.heap[touched]? = some entry → entry.inIdle = true → touched ∈ next.idle) :
    next.Listed := by
  intro key other entry bound found raised
  -- Entries that the operation does not touch are listed as before.
  by_cases same : other = touched
  · subst same
    exact own key entry bound found raised
  · rw [heap other same] at found
    exact idle other same (listed key other entry (entries key other same bound) found raised)

/-- An operation that touches one entry only has that entry to list. -/
theorem Listed.touch (listed : store.Listed) (only : OnlyEntry touched store next)
    (own : ∀ key entry, next.entries.get? key = some touched →
      next.heap[touched]? = some entry → entry.inIdle = true → touched ∈ next.idle) :
    next.Listed :=
  -- Every other entry is listed as before, under the binding it had.
  listed.only touched only.heap (fun _ _ differ => (only.entries _ _ differ).mp)
    (fun _ differ => (only.mem_idle differ).mpr) own

/-- Evicting an entry leaves the flagged live entries listed. -/
theorem Listed.evict (listed : store.Listed) (found : store.heap[e]? = some entry) :
    ((store.unlink e).beginDispose e).Listed := by
  -- Some binding is lost, perhaps not the one of the entry, and the entry is not flagged any more.
  refine listed.only e (fun other differ => ?_) (fun key other _ bound => ?_)
    (fun other differ inside => ?_) fun key after _ read raised => ?_
  · rw [evict_heap, Arena.getElem?_modify_other _ _ (Ne.symm differ)]
  · rw [evict_entries _ _ found] at bound
    exact (OrderedMap.get?_of_delete bound).2
  · rw [beginDispose_idle, unlink_idle]
    exact ((OnlyEntry.idleRemove store e).mem_idle differ).mpr inside
  · rw [evict_heap, Arena.getElem?_modify_self _ found] at read
    cases read
    cases raised

end Store

namespace State

variable {options : PoolOptions} {s next : State κ τ} {e : EntryId} {entry : Entry κ τ}

/-! ### Claimed entries -/

/-- A turn of the reservation loop leaves an entry of a marked key anchored. -/
theorem SlotEffect.anchored {a : AcquireId} (effect : SlotEffect options s a next)
    (wf : s.toStore.WellFormed) (found : s.heap[e]? = some entry)
    (pending : s.toKeyState.isPending entry.key = true) (anchored : s.toStore.Anchored e) :
    next.toStore.Anchored e := by
  -- The victim is spared while its key is marked, so it is of another key.
  cases effect with
  | evicted victim _ _ _ listed spared =>
    obtain ⟨other, found', -⟩ := wf.listed victim listed
    refine anchored.evict found' fun record read same => ?_
    cases found.symm.trans read
    simp [nodePending, found', ← same, pending] at spared
  | unbounded | refused | reserved | exhausted | parked => exact anchored

/-- `obtain` from the orphan lookup on leaves an entry of a marked key anchored. -/
theorem MissEffect.anchored {a : AcquireId} {key : κ} (effect : MissEffect options s a key next)
    (wf : s.toStore.WellFormed) (found : s.heap[e]? = some entry)
    (pending : s.toKeyState.isPending entry.key = true) (anchored : s.toStore.Anchored e) :
    next.toStore.Anchored e := by
  -- A resurrected orphan is live, and the reservation loop spares pending keys.
  cases effect with
  | resurrected orphan bound =>
    refine anchored.only (.resurrect (wf.not_live_of_orphaned bound) bound) fun same => ?_
    subst same
    exact Store.anchored_of_bound (wf.resurrect bound) (.inl (OrderedMap.get?_set_self ..))
  | refused => exact anchored
  | slot _ _ _ effect =>
    have wf : s.miss.toStore.WellFormed := wf
    exact effect.anchored wf found pending anchored

/-- Dropping a reference leaves an entry anchored. -/
theorem ReleaseEffect.anchored {dropped : EntryId} (effect : ReleaseEffect s dropped next)
    (anchored : s.toStore.Anchored e) : next.toStore.Anchored e := by
  -- An entry that is held is bound, and only its removal unbinds it.
  cases effect with
  | ignored => exact anchored
  | dropped entry found _ shared =>
    refine anchored.only (.update s.toStore dropped _) fun same => ?_
    subst same
    intro after read _
    rcases Arena.getElem?_modify_cases read with ⟨-, record, before, rfl⟩ | ⟨differ, -⟩
    · cases found.symm.trans before
      exact anchored entry found (.inr (by omega))
    · exact absurd rfl differ
  | retired entry found _ last =>
    show Store.Anchored ((((s.dropReference dropped).stampReleased dropped).toStore.removeEntry
      dropped).beginDispose dropped) e
    rw [stampReleased_dropReference]
    refine anchored.only (.retire s.toStore dropped _) fun same => ?_
    subst same
    refine Store.anchored_of_spent fun after read => ?_
    rw [Store.retire_heap, Arena.getElem?_modify_self _ found] at read
    cases read
    simp [lastDrop, last]
  | freed entry found _ last =>
    show Store.Anchored (((s.dropReference dropped).stampReleased dropped).toStore.idleAppend
      dropped) e
    rw [stampReleased_dropReference]
    refine anchored.only (.free s.toStore dropped _) fun same => ?_
    subst same
    intro after read _
    rw [Store.free_heap, Arena.getElem?_modify_self _ found] at read
    cases read
    simpa [lastDrop] using anchored entry found (.inr (by omega))

/-- A drain leaves an entry anchored. -/
theorem anchored_drain (wf : s.toStore.WellFormed) (anchored : s.toStore.Anchored e) :
    s.drain.toStore.Anchored e := by
  -- The drain unbinds an entry that nobody holds, and makes an orphan of any other.
  have walked := drain_rule (s := s) (P := fun next _ => next.toStore.Anchored e) wf
    ?idle ?held ?orphan anchored
  case idle =>
    intro next waits live entry wf anchored found bound unheld
    refine Store.Anchored.only anchored (.evict found bound) fun same => ?_
    subst same
    exact Store.anchored_evicted found unheld
  case held =>
    intro next waits live entry wf anchored found bound held
    refine Store.Anchored.only anchored (onlyEntry_condemnHeld wf found bound) fun same => ?_
    subst same
    exact Store.anchored_of_bound ((wf.orphan found bound held).setWaiters _)
      (.inr (OrderedMap.get?_set_self ..))
  case orphan =>
    intro next waits orphan entry wf anchored found bound _
    refine Store.Anchored.only anchored (onlyEntry_condemnOrphan next orphan) fun same => ?_
    subst same
    exact Store.anchored_of_bound
      ((wf.condemn found (wf.orphaned_at bound found).held).setWaiters _) (.inr bound)
  obtain ⟨last, waits, -, kept, -, same⟩ := walked
  rw [same]
  exact kept

/-- A sweep leaves an entry of a marked key anchored. -/
theorem anchored_sweep (wf : s.toStore.WellFormed) (found : s.heap[e]? = some entry)
    (pending : s.toKeyState.isPending entry.key = true) (anchored : s.toStore.Anchored e) :
    (s.sweep options).toStore.Anchored e := by
  -- The sweep passes over the nodes whose key is marked, so what it evicts is of another key.
  refine (sweep_rule options (P := fun next => next.toKeyState = s.toKeyState ∧
    (∃ record, next.heap[e]? = some record ∧ record.key = entry.key) ∧
      next.toStore.Anchored e) wf ?_ (fun _ _ => id) ⟨rfl, ⟨entry, found, rfl⟩, anchored⟩).2.2.2
  rintro next node other wf ⟨keys, ⟨record, read, key⟩, anchored⟩ found' listed spared
  have differ : record.key ≠ other.key := by
    intro same
    rw [nodePending, found', keys] at spared
    simp [← same, key, pending] at spared
  refine ⟨keys, ?_, Store.Anchored.evict anchored found' fun again read' => ?_⟩
  · refine ⟨record, ?_, key⟩
    show ((next.toStore.unlink node).beginDispose node).heap[e]? = some record
    rw [Store.evict_heap, Arena.getElem?_modify_other _ _ ?_, read]
    rintro rfl
    cases read.symm.trans found'
    exact differ rfl
  · cases read.symm.trans read'
    exact differ

/-- A step leaves a claimed entry anchored, unless it delivers it. -/
theorem Effect.anchors {action : Action κ τ} (core : Core s)
    (effect : Effect options s action next) {b : AcquireId} {other : Acquire κ}
    (called : s.acquires[b]? = some other) (claimed : other.phase.claimed = some e)
    (resting : action ≠ .deliver b) (anchored : s.toStore.Anchored e) :
    next.toStore.Anchored e := by
  have wf := core.store
  have running := claims_claimed.stage_of_claimed claimed
  obtain ⟨entry, found, key⟩ := entry_of_claimed claims_claimed core called claimed
  have pending : s.toKeyState.isPending entry.key = true :=
    pending_of_running core ⟨b, other, called, key.symm, running⟩
  -- The step touches another entry, or leaves this one bound, or spent.
  cases effect with
  | shared key' live entry' bound found' =>
    refine anchored.only (.checkout s.toStore live) fun same => ?_
    subst same
    exact Store.anchored_of_bound (wf.checkout found')
      (.inl ((Store.checkout_entries s.toStore e).symm ▸ bound))
  | released h handle next found' holding effect => exact effect.anchored anchored
  | releasedKey key' bound next found' effect => exact effect.anchored anchored
  | drain | stop => exact anchored_drain wf anchored
  | sweep => exact anchored_sweep wf found pending anchored
  | missed a acquire after next called' phase turn absent effect =>
    exact effect.anchored wf found pending anchored
  | discarded a acquire live next called' phase effect =>
    exact effect.anchored wf found pending anchored
  | resumed a acquire w waiter next called' phase found' woken effect =>
    exact effect.anchored wf found pending anchored
  -- Two calls in their turns are about entries of different keys.
  | delivered a acquire live called' phase =>
    refine anchored.only (.checkout s.toStore live) fun same => ?_
    subst same
    have differ : a ≠ b := fun same => resting (same ▸ rfl)
    obtain ⟨record, read, key'⟩ := core.fits called' phase
    cases found.symm.trans read
    exact absurd (key.symm.trans key')
      (alone_of_running core called' (by rw [phase]; rfl) b other differ called running)
  | refuted a acquire live called' phase =>
    refine anchored.only (.discard s.toStore live) fun same => ?_
    subst same
    obtain ⟨record, read, -, unheld, -⟩ := core.fits called' phase
    exact Store.anchored_discarded read unheld
  | inserted x exec resource found' outstanding =>
    obtain ⟨acquire, called', same, phase⟩ := core.execs.awaited x exec found' outstanding
    refine anchored.only (.insert s.toStore resource s.now (same ▸ (core.fits called' phase).1))
      fun same => ?_
    subst same
    simp at found
  | disposeSettled settled =>
    intro after read marked
    rw [finishDispose_heap] at read
    rcases Arena.getElem?_modify_cases read with ⟨-, record, before, rfl⟩ | ⟨-, before⟩
    · exact anchored record before marked
    · exact anchored after before marked
  | queued | releasedAgain | releasedNone | start | gcKeyState | emitStats | timeout | clock
  | validating | returned | abandoned | breakerless | creating | failed | drained | unvalidated
  | passed | factoryCalled | factorySettled | execRejected | execLate | lateDisposeSettled
  | breakerChanged => exact anchored

/-- A call that comes to a claim finds its entry bound, or claimed it before. -/
theorem Effect.anchored {action : Action κ τ} (core : Core s)
    (effect : Effect options s action next)
    (anchored : EveryClaim Phase.claimed s.toStore.Anchored s.acquires) :
    EveryClaim Phase.claimed next.toStore.Anchored next.acquires := by
  have wf := core.store
  have wf' := effect.wellFormed core
  have selects := claims_claimed
  have others (b : Nat) other (e : Nat) (called : s.acquires[b]? = some other)
      (claimed : other.phase.claimed = some e) (resting : action ≠ .deliver b) :
      next.toStore.Anchored e :=
    effect.anchors core called claimed resting (anchored b other e called claimed)
  have lasting (resting : ∀ b, action ≠ .deliver b) :
      EveryClaim Phase.claimed next.toStore.Anchored s.acquires := fun b other e called claimed =>
    others b other e called claimed (resting b)
  have resurrected {key : κ} (e : EntryId) (bound : next.entries.get? key = some e) :
      next.toStore.Anchored e :=
    Store.anchored_of_bound wf' (.inl bound)
  -- What remains is the claim of the call that moves, if it moves to one.
  cases effect with
  | shared key e =>
    show EveryClaim _ _ ((s.acquires ++ [(⟨key, none, .queued none⟩ : Acquire κ)]).modify
      s.acquires.length fun acquire => { acquire with phase := .fulfilled s.handles.length })
    rw [shared_acquires]
    exact (lasting (by simp)).push rfl
  | queued key => exact (lasting (by simp)).push rfl
  | released h handle next found holding effect =>
    rw [effect.sameCalls.acquires]
    exact lasting (by simp)
  | releasedKey key e next bound effect =>
    rw [effect.sameCalls.acquires]
    exact lasting (by simp)
  | drain =>
    rw [(sameCalls_drain wf).acquires]
    exact lasting (by simp)
  | stop =>
    have same := sameCalls_drain (s := s.setClosed.stopTimers) wf
    unfold State.stop at lasting ⊢
    rw [same.acquires]
    exact lasting (by simp)
  | sweep =>
    rw [(sameCalls_sweep wf).acquires]
    exact lasting (by simp)
  -- The entry claimed is bound, or was claimed before.
  | validating a acquire after e entry called phase turn bound found
  | returned a acquire after e entry called phase turn bound found =>
    refine .move (fun b other e _ called claimed => others b other e called claimed (by simp)) _
      fun other same => ?_
    cases same
    exact Store.anchored_of_bound wf' (.inl bound)
  | passed a acquire live called phase =>
    refine .move (fun b other e _ called claimed => others b other e called claimed (by simp)) _
      fun other same => ?_
    cases same
    exact anchored a acquire live called (by rw [phase]; rfl)
  | inserted x exec resource =>
    refine .move (fun b other e _ called claimed => others b other e called claimed (by simp)) _
      fun other same => ?_
    cases same
    exact Store.anchored_of_bound wf' (.inl (Store.insert_bound ..))
  -- A turn of the reservation loop ends in a claim only by a resurrection.
  | missed a acquire after next called phase turn absent effect =>
    exact effect.everyClaim selects
      (fun b other e _ called claimed => others b other e called claimed (by simp)) resurrected
  | discarded a acquire live next called phase effect =>
    exact effect.everyClaim selects
      (fun b other e _ called claimed => others b other e called claimed (by simp)) resurrected
  | resumed a acquire w waiter next called phase found woken effect =>
    exact effect.everyClaim selects
      fun b other e _ called claimed => others b other e called claimed (by simp)
  -- These phases claim nothing.
  | abandoned | breakerless | creating | failed | delivered | refuted | unvalidated | execRejected
  | execLate | lateDisposeSettled =>
    exact .move (fun b other e differ called claimed => others b other e called claimed (by
      simp [differ])) _ fun e claimed => by cases claimed
  | releasedAgain | releasedNone | start | gcKeyState | emitStats | timeout | clock | drained
  | factoryCalled | factorySettled | disposeSettled | breakerChanged => exact lasting (by simp)

/-! ### Live entries -/

/-- A turn of the reservation loop leaves the flagged live entries listed. -/
theorem SlotEffect.listed {a : AcquireId} (effect : SlotEffect options s a next)
    (wf : s.toStore.WellFormed) (listed : s.toStore.Listed) : next.toStore.Listed := by
  -- Only an eviction writes to the list.
  cases effect with
  | evicted victim _ _ _ inside =>
    obtain ⟨entry, found, -⟩ := wf.listed victim inside
    exact listed.evict found
  | unbounded | refused | reserved | exhausted | parked => exact listed

/-- `obtain` from the orphan lookup on leaves the flagged live entries listed. -/
theorem MissEffect.listed {a : AcquireId} {key : κ} (effect : MissEffect options s a key next)
    (wf : s.toStore.WellFormed) (listed : s.toStore.Listed) : next.toStore.Listed := by
  -- An orphan that comes back is held, so it is not flagged.
  cases effect with
  | resurrected orphan bound =>
    refine listed.touch (.resurrect (wf.not_live_of_orphaned bound) bound)
      fun _ entry _ found raised => ?_
    have held := (wf.orphaned_at bound found).held
    have unheld := (wf.sound orphan entry found).flagged raised
    omega
  | refused => exact listed
  | slot _ _ _ effect =>
    have wf : s.miss.toStore.WellFormed := wf
    exact effect.listed wf listed

/-- Dropping a reference leaves the flagged live entries listed. -/
theorem ReleaseEffect.listed {dropped : EntryId} (effect : ReleaseEffect s dropped next)
    (wf : s.toStore.WellFormed) (listed : s.toStore.Listed) : next.toStore.Listed := by
  -- An entry that was held is not flagged before, and listed if it is flagged afterwards.
  cases effect with
  | ignored => exact listed
  | dropped entry found _ shared =>
    refine listed.touch (.update s.toStore dropped _) fun key after bound read raised => ?_
    rcases Arena.getElem?_modify_cases read with ⟨-, record, before, rfl⟩ | ⟨differ, -⟩
    · exact listed key dropped record bound before raised
    · exact absurd rfl differ
  | retired entry found _ last =>
    show Store.Listed ((((s.dropReference dropped).stampReleased dropped).toStore.removeEntry
      dropped).beginDispose dropped)
    rw [stampReleased_dropReference]
    refine listed.touch (.retire s.toStore dropped _) fun key after _ read raised => ?_
    rw [Store.retire_heap, Arena.getElem?_modify_self _ found] at read
    cases read
    cases raised
  | freed entry found _ last =>
    show Store.Listed (((s.dropReference dropped).stampReleased dropped).toStore.idleAppend
      dropped)
    rw [stampReleased_dropReference]
    have dropped' : (s.toStore.update dropped (lastDrop s.now)).heap[dropped]? =
        some (lastDrop s.now entry) := Arena.getElem?_modify_self _ found
    have lowered : (lastDrop s.now entry).inIdle = false := Bool.eq_false_iff.mpr fun raised => by
      have := (wf.sound dropped entry found).flagged raised
      omega
    refine listed.touch (.free s.toStore dropped _) fun key after _ read raised => ?_
    rw [Store.idleAppend_idle dropped' lowered]
    simp

/-- Condemning a held live entry leaves the other flagged live entries listed. -/
theorem listed_condemnHeld (wf : s.toStore.WellFormed) (listed : s.toStore.Listed)
    (found : s.heap[e]? = some entry) (live : s.entries.get? entry.key = some e) :
    (s.condemnHeld e entry.key).toStore.Listed := by
  refine listed.touch (onlyEntry_condemnHeld wf found live) fun key after bound _ _ => ?_
  -- The entry is not bound as a live one any more.
  have bound : (s.toStore.deleteKey e).entries.get? key = some e := bound
  rw [Store.deleteKey_entries found] at bound
  obtain ⟨differ, before⟩ := OrderedMap.get?_of_delete bound
  exact absurd (wf.live_at before found).key.symm differ

/-- A sweep leaves the flagged live entries listed. -/
theorem listed_sweep (wf : s.toStore.WellFormed) (listed : s.toStore.Listed) :
    (s.sweep options).toStore.Listed := by
  -- Each eviction of the loop keeps them listed.
  refine (sweep_rule options (P := fun next => next.toStore.Listed) wf ?_ (fun _ _ => id) listed).2
  intro next node entry _ listed found _ _
  exact listed.evict found

/-- A drain leaves nothing live, and so nothing to list. -/
theorem listed_drain (wf : s.toStore.WellFormed) : s.drain.toStore.Listed := by
  -- Both walks together leave no key bound.
  obtain ⟨last, waits, -, -, nothing, same⟩ := drain_rule (s := s) (P := fun _ _ => True) wf
    (fun _ _ _ _ _ _ _ _ _ => trivial) (fun _ _ _ _ _ _ _ _ _ => trivial)
    (fun _ _ _ _ _ _ _ _ _ => trivial) trivial
  intro key e entry bound
  rw [same] at bound
  simp [Store.resetIdle, nothing key] at bound

/-- Every step leaves the flagged live entries listed. -/
theorem Effect.listed {action : Action κ τ} (core : Core s)
    (effect : Effect options s action next) (listed : s.toStore.Listed) :
    next.toStore.Listed := by
  have wf := core.store
  -- An entry that is checked out or discarded is not flagged afterwards.
  have checkedOut {e : EntryId} {entry : Entry κ τ} (found : s.heap[e]? = some entry) :
      (s.toStore.checkout e).Listed := by
    refine listed.touch (.checkout s.toStore e) fun key after bound read raised => ?_
    have held : 0 < after.refCount := by
      rw [Store.checkout_heap, Arena.getElem?_modify_self _ found] at read
      cases read
      exact Nat.succ_pos _
    have unheld := ((wf.checkout found).sound e after read).flagged raised
    omega
  cases effect with
  | shared key e entry bound found => exact checkedOut found
  | delivered a acquire e called phase =>
    obtain ⟨entry, found, -⟩ := core.fits called phase
    exact checkedOut found
  | released h handle next found holding effect => exact effect.listed wf listed
  | releasedKey key e next bound effect => exact effect.listed wf listed
  -- Nothing is live after a drain.
  | drain => exact listed_drain wf
  | stop => exact listed_drain (s := s.setClosed.stopTimers) wf
  | sweep => exact listed_sweep wf listed
  | missed a acquire after next called phase turn absent effect => exact effect.listed wf listed
  | discarded a acquire live next called phase effect => exact effect.listed wf listed
  | resumed a acquire w waiter next called phase found woken effect =>
    exact effect.listed wf listed
  | refuted a acquire live called phase =>
    obtain ⟨entry, found, -⟩ := core.fits called phase
    refine listed.touch (.discard s.toStore live) fun key after _ read raised => ?_
    have read : ((s.toStore.removeEntry live).beginDispose live).heap[live]? = some after := read
    rw [Store.discard_heap, Arena.getElem?_modify_self _ found] at read
    cases read
    cases raised
  | inserted x exec resource found outstanding =>
    obtain ⟨acquire, called, same, phase⟩ := core.execs.awaited x exec found outstanding
    refine listed.touch (.insert s.toStore resource s.now (same ▸ (core.fits called phase).1))
      fun _ _ _ _ _ => ?_
    show s.heap.length ∈ (s.toStore.insert exec.key resource s.now).idle
    simp [Store.insert_idle]
  | disposeSettled settled =>
    intro key e after bound read raised
    rw [finishDispose_heap] at read
    rcases Arena.getElem?_modify_cases read with ⟨rfl, record, before, rfl⟩ | ⟨-, before⟩
    · exact listed key settled record bound before raised
    · exact listed key e after bound before raised
  | queued | releasedAgain | releasedNone | start | gcKeyState | emitStats | timeout | clock
  | validating | returned | abandoned | breakerless | creating | failed | drained | unvalidated
  | passed | factoryCalled | factorySettled | execRejected | execLate | lateDisposeSettled
  | breakerChanged => exact listed

/-- Flags can be trusted: a flagged entry that is live or claimed is listed. -/
structure Marked (s : State κ τ) : Prop where
  core : Core s
  claimed : EveryClaim Phase.claimed s.toStore.Anchored s.acquires
  listed : s.toStore.Listed

/-- A new pool has neither entries nor calls. -/
theorem marked_init (options : PoolOptions) : Marked (init options : State κ τ) where
  -- There is nothing to claim or to list.
  core := core_init options
  claimed := by simp [EveryClaim, init]
  listed := by simp [Store.Listed, init, Store.empty]

/-- Every step leaves flags that can be trusted. -/
theorem Marked.step {action : Action κ τ} (marked : Marked s)
    (stepped : s.step options action = some next) : Marked next where
  -- Each part has its own law of one step.
  core := core_step marked.core stepped
  claimed := (step_effect stepped).anchored marked.core marked.claimed
  listed := (step_effect stepped).listed marked.core marked.listed

end State

end RefPool
