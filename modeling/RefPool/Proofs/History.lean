import RefPool.Proofs.Core

/-! How entry objects evolve: what no step ever changes, and what only releases and checkouts do. -/

namespace RefPool

variable {κ τ : Type}

/-- What holds between an entry object and the same object later. -/
structure Entry.Follows (entry after : Entry κ τ) : Prop where
  key : after.key = entry.key
  resource : after.resource = entry.resource
  disposing : entry.disposing = true → after.disposing = true
  disposed : entry.disposed = true → after.disposed = true

/-- What holds across a step that takes and drops no reference. -/
structure Entry.Kept (entry after : Entry κ τ) : Prop extends entry.Follows after where
  refCount : after.refCount = entry.refCount

namespace Entry

/-- An entry follows itself. -/
theorem Follows.refl (entry : Entry κ τ) : entry.Follows entry :=
  -- The fields are equal, and flags imply themselves.
  ⟨rfl, rfl, id, id⟩

/-- Following is transitive. -/
theorem Follows.trans {first second third : Entry κ τ} (left : first.Follows second)
    (right : second.Follows third) : first.Follows third :=
  -- Equations and implications compose.
  ⟨right.key.trans left.key, right.resource.trans left.resource,
    right.disposing ∘ left.disposing, right.disposed ∘ left.disposed⟩

/-- An entry keeps its own references. -/
theorem Kept.refl (entry : Entry κ τ) : entry.Kept entry :=
  -- An entry follows itself, with its own count.
  ⟨.refl entry, rfl⟩

/-- Keeping references is transitive. -/
theorem Kept.trans {first second third : Entry κ τ} (left : first.Kept second)
    (right : second.Kept third) : first.Kept third :=
  -- Both parts compose.
  ⟨left.toFollows.trans right.toFollows, right.refCount.trans left.refCount⟩

end Entry

namespace Store

variable {store middle next : Store κ τ} {e : EntryId}

/-- Every entry object is still there, and follows what it was. -/
structure Grows (store next : Store κ τ) : Prop where
  length : store.heap.length ≤ next.heap.length
  entry : ∀ (e : Nat) entry, store.heap[e]? = some entry →
    ∃ after, next.heap[e]? = some after ∧ entry.Follows after

/-- No entry object is new, and all references are kept. -/
structure Kept (store next : Store κ τ) : Prop where
  length : next.heap.length = store.heap.length
  entry : ∀ (e : Nat) entry, store.heap[e]? = some entry →
    ∃ after, next.heap[e]? = some after ∧ entry.Kept after

/-- A store grows into itself. -/
theorem Grows.refl (store : Store κ τ) : Grows store store :=
  -- Each entry follows itself.
  ⟨Nat.le_refl _, fun _ entry found => ⟨entry, found, .refl entry⟩⟩

namespace Kept

/-- A store keeps its own references. -/
theorem refl (store : Store κ τ) : Kept store store :=
  -- Each entry keeps its references.
  ⟨rfl, fun _ entry found => ⟨entry, found, .refl entry⟩⟩

/-- Keeping references is transitive. -/
theorem trans (left : Kept store middle) (right : Kept middle next) : Kept store next := by
  -- The entry is followed through the store in between.
  refine ⟨right.length.trans left.length, fun e entry found => ?_⟩
  obtain ⟨between, present, first⟩ := left.entry e entry found
  obtain ⟨after, last, second⟩ := right.entry e between present
  exact ⟨after, last, first.trans second⟩

/-- A store that keeps its references grows. -/
theorem grows (kept : Kept store next) : Grows store next := by
  -- Keeping references is following, and more.
  refine ⟨Nat.le_of_eq kept.length.symm, fun e entry found => ?_⟩
  obtain ⟨after, last, same⟩ := kept.entry e entry found
  exact ⟨after, last, same.toFollows⟩

/-- What is read afterwards was there before. -/
theorem exists_before (kept : Kept store next) {after : Entry κ τ}
    (found : next.heap[e]? = some after) :
    ∃ entry, store.heap[e]? = some entry ∧ entry.Kept after := by
  -- The heap has not grown, so the address was in use before.
  have inside : e < store.heap.length := by
    rw [← kept.length]
    exact (List.getElem?_eq_some_iff.mp found).1
  obtain ⟨other, present, same⟩ := kept.entry e store.heap[e] (List.getElem?_eq_getElem inside)
  cases found.symm.trans present
  exact ⟨_, List.getElem?_eq_getElem inside, same⟩

/-- Assigning other fields of one entry keeps all references. -/
theorem reassign (e : EntryId) (assign : Entry κ τ → Entry κ τ)
    (heap : next.heap = store.heap.modify e assign)
    (same : ∀ entry, store.heap[e]? = some entry → entry.Kept (assign entry)) :
    Kept store next where
  -- The other entries are read as before.
  length := by rw [heap, List.length_modify]
  entry := by
    intro other entry found
    rw [heap]
    exact Arena.exists_getElem?_modify found (fun here => same entry (here ▸ found))
      fun _ => .refl entry

/-- Assigning other fields of one entry keeps all references. -/
theorem update (e : EntryId) (assign : Entry κ τ → Entry κ τ)
    (same : ∀ entry : Entry κ τ, entry.Kept (assign entry)) :
    Kept store (store.update e assign) :=
  -- It is a reassignment of the heap alone.
  reassign e assign rfl fun entry _ => same entry

/-- Ending a disposal keeps all references. -/
theorem finish (e : EntryId) :
    Kept store ((store.update e fun entry => { entry with disposed := true }).update e
      fun entry => { entry with disposeWaiters := [] }) := by
  -- The two assignments at the end of a disposal are one.
  rw [update_update]
  exact update e _ fun _ => ⟨⟨rfl, rfl, id, fun _ => rfl⟩, rfl⟩

/-- The waiters of an entry are not its references. -/
theorem setWaiters (e : EntryId) (waiters : Entry κ τ → List DisposalWaitId) :
    Kept store (store.update e fun entry => { entry with disposeWaiters := waiters entry }) :=
  -- Only the list of waiters changes.
  update e _ fun _ => ⟨⟨rfl, rfl, id, id⟩, rfl⟩

/-- Condemning an entry keeps all references. -/
theorem condemn (e : EntryId) :
    Kept store (store.update e fun entry => { entry with condemned := true }) :=
  -- Only that flag changes.
  update e _ fun _ => ⟨⟨rfl, rfl, id, id⟩, rfl⟩

variable [DecidableEq κ]

/-- Evicting an entry keeps all references. -/
theorem evict (e : EntryId) : Kept store ((store.unlink e).beginDispose e) :=
  -- Only the flag of the disposal goes up.
  reassign e _ (evict_heap store e)
    fun entry _ => ⟨⟨rfl, rfl, fun begun => by simp [begun], id⟩, rfl⟩

/-- Removing an entry and disposing of it keeps all references. -/
theorem discard (e : EntryId) : Kept store ((store.removeEntry e).beginDispose e) :=
  -- Only the flag of the disposal goes up.
  reassign e _ (discard_heap store e)
    fun entry _ => ⟨⟨rfl, rfl, fun begun => by simp [begun], id⟩, rfl⟩

/-- Orphaning an entry keeps all references. -/
theorem orphan (key : κ) (e : EntryId) : Kept store ((store.deleteKey e).orphan key e) :=
  -- Only the maps change, and the flag of the list.
  reassign e _ (orphan_heap store e key)
    fun _ _ => ⟨⟨rfl, rfl, id, id⟩, rfl⟩

/-- Resurrecting an orphan keeps all references. -/
theorem resurrect (key : κ) (e : EntryId) : Kept store (store.resurrect key e) :=
  -- Only the maps change.
  ⟨rfl, fun _ entry found => ⟨entry, found, .refl entry⟩⟩

end Kept

end Store

namespace State

variable [DecidableEq κ] {options : PoolOptions} {s next : State κ τ} {a : AcquireId} {key : κ}
  {e : EntryId}

/-- A turn of the reservation loop keeps all references. -/
theorem SlotEffect.kept (effect : SlotEffect options s a next) :
    s.toStore.Kept next.toStore := by
  -- Only an eviction touches an entry.
  cases effect with
  | evicted victim => exact .evict victim
  | unbounded | refused | reserved | exhausted | parked => exact .refl _

/-- `obtain` from the orphan lookup on keeps all references. -/
theorem MissEffect.kept (effect : MissEffect options s a key next) :
    s.toStore.Kept next.toStore := by
  -- Moving an orphan back touches the maps alone.
  cases effect with
  | resurrected e => exact .resurrect key e
  | refused => exact .refl _
  | slot _ _ _ effect => exact effect.kept

/-- A drain keeps all references. -/
theorem kept_drain (wf : s.toStore.WellFormed) : s.toStore.Kept s.drain.toStore := by
  -- No turn of the drain takes or drops a reference.
  obtain ⟨last, waits, -, kept, -, same⟩ := drain_rule (s := s)
    (P := fun next _ => s.toStore.Kept next.toStore) wf
    (fun next _ e entry _ kept _ _ _ => kept.trans (.evict e))
    (fun next _ e entry _ kept _ _ _ =>
      (kept.trans (.orphan entry.key e)).trans (.setWaiters e _))
    (fun next _ e entry _ kept _ _ _ => (kept.trans (.condemn e)).trans (.setWaiters e _))
    (.refl _)
  rw [same]
  exact ⟨kept.length, kept.entry⟩

/-- A sweep keeps all references. -/
theorem kept_sweep (wf : s.toStore.WellFormed) :
    s.toStore.Kept (s.sweep options).toStore := by
  -- No eviction takes or drops a reference.
  exact (sweep_rule options (P := fun next => s.toStore.Kept next.toStore) wf
    (fun _ node _ _ kept _ _ _ => kept.trans (.evict node)) (fun _ _ => id) (.refl _)).2

/-- A release drops exactly one reference of one entry, or does nothing. -/
theorem ReleaseEffect.heap (effect : ReleaseEffect s e next) :
    ((∀ entry, s.heap[e]? = some entry → entry.disposed = true ∨ entry.refCount = 0) ∧
      next = s) ∨
    ∃ entry assign, s.heap[e]? = some entry ∧ entry.disposed = false ∧ 0 < entry.refCount ∧
      next.heap = s.heap.modify e assign ∧ entry.Follows (assign entry) ∧
      (assign entry).disposed = false ∧ (assign entry).refCount = entry.refCount - 1 := by
  -- Whether others hold the entry or not, it is assigned once.
  cases effect with
  | ignored spent => exact .inl ⟨spent, rfl⟩
  | dropped entry found undisposed shared =>
    exact .inr ⟨entry, _, found, undisposed, by omega, rfl, ⟨rfl, rfl, id, id⟩, undisposed, rfl⟩
  | retired entry found undisposed last =>
    refine .inr ⟨entry, fun entry =>
      { lastDrop s.now entry with
        inIdle := false
        disposing := (lastDrop s.now entry).disposing || !(lastDrop s.now entry).disposed },
      found, undisposed, by omega, ?_, ⟨rfl, rfl, fun begun => by simp [lastDrop, begun], id⟩,
      undisposed, rfl⟩
    show ((((s.dropReference e).stampReleased e).toStore.removeEntry e).beginDispose e).heap = _
    rw [stampReleased_dropReference]
    exact Store.retire_heap s.toStore e (lastDrop s.now)
  | freed entry found undisposed last =>
    refine .inr ⟨entry, fun entry => { lastDrop s.now entry with inIdle := true }, found,
      undisposed, by omega, ?_, ⟨rfl, rfl, id, id⟩, undisposed, rfl⟩
    show (((s.dropReference e).stampReleased e).toStore.idleAppend e).heap = _
    rw [stampReleased_dropReference]
    exact Store.free_heap s.toStore e (lastDrop s.now)

/-- A release lets every entry object follow what it was. -/
theorem ReleaseEffect.grows (effect : ReleaseEffect s e next) :
    s.toStore.Grows next.toStore := by
  -- The entry released follows what it was, and the others are untouched.
  rcases effect.heap with ⟨-, rfl⟩ | ⟨entry, assign, found, -, -, heap, follows, -⟩
  · exact .refl _
  · refine ⟨Nat.le_of_eq (by rw [heap, List.length_modify]), fun other record present => ?_⟩
    rw [heap]
    refine Arena.exists_getElem?_modify present (fun here => ?_) fun _ => .refl record
    cases (here ▸ found).symm.trans present
    exact follows

omit [DecidableEq κ] in
/-- Taking a reference lets every entry object follow what it was. -/
theorem grows_checkout (store : Store κ τ) (e : EntryId) : store.Grows (store.checkout e) := by
  -- A reference more is no part of what an entry follows.
  refine ⟨by simp, fun other record present => ?_⟩
  rw [Store.checkout_heap]
  exact Arena.exists_getElem?_modify present (fun _ => ⟨rfl, rfl, id, id⟩) fun _ => .refl record

/-- Inserting an entry leaves the others alone. -/
theorem insert_heap_other (store : Store κ τ) (key : κ) (resource : τ) (now : Int) {e : Nat}
    (old : e ≠ store.heap.length) :
    (store.insert key resource now).heap[e]? = store.heap[e]? := by
  -- The fresh entry is at the old length of the heap.
  simp only [Store.insert, Store.idleAppend_heap]
  rw [Arena.getElem?_modify_other _ _ (Ne.symm old), Arena.getElem?_push, if_neg old]

/-- An inserted entry is fresh: nobody holds it and nobody disposes of it. -/
theorem insert_heap_new (store : Store κ τ) (key : κ) (resource : τ) (now : Int) :
    (store.insert key resource now).heap[store.heap.length]? = some
      { key, resource, refCount := 0, lastReleasedAt := now, condemned := false,
        disposed := false, disposing := false, disposeWaiters := [], inIdle := true } := by
  -- The entry is pushed at the end of the heap.
  simp [Store.insert]

/-- Inserting an entry lets every entry object follow what it was. -/
theorem grows_insert (store : Store κ τ) (key : κ) (resource : τ) (now : Int) :
    store.Grows (store.insert key resource now) := by
  -- The older entries keep their addresses.
  refine ⟨by simp [Store.insert], fun e entry found => ⟨entry, ?_, .refl entry⟩⟩
  have inside : e < store.heap.length := (List.getElem?_eq_some_iff.mp found).1
  rw [insert_heap_other store key resource now (by omega), found]

/-- Every step lets every entry object follow what it was. -/
theorem Effect.grows {action : Action κ τ} (wf : s.toStore.WellFormed)
    (effect : Effect options s action next) : s.toStore.Grows next.toStore := by
  -- A step takes a reference, drops one, allocates an entry or keeps all references.
  cases effect with
  | shared key e | delivered a acquire e => exact grows_checkout s.toStore e
  | released h handle next found holding effect => exact effect.grows
  | releasedKey key e next bound effect => exact effect.grows
  | drain => exact (kept_drain wf).grows
  | stop => exact (kept_drain (s := s.setClosed.stopTimers) wf).grows
  | sweep => exact (kept_sweep wf).grows
  | missed a acquire after next called phase turn absent effect => exact effect.kept.grows
  | discarded a acquire live next called phase effect => exact effect.kept.grows
  | resumed a acquire w waiter next called phase found woken effect => exact effect.kept.grows
  | refuted a acquire live => exact (Store.Kept.discard live).grows
  | inserted x exec resource => exact grows_insert s.toStore exec.key resource s.now
  | disposeSettled e => exact (Store.Kept.finish e).grows
  | queued | releasedAgain | releasedNone | start | gcKeyState | emitStats | timeout | clock
  | validating | returned | abandoned | breakerless | creating | failed | drained | unvalidated
  | passed | factoryCalled | factorySettled | execRejected | execLate | lateDisposeSettled
  | breakerChanged => exact .refl _

end State

end RefPool
