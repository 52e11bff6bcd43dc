import RefPool.Proofs.Deadline
import RefPool.Proofs.Frame

/-! What a step does to the order of the idle list: it takes nodes out, and adds one at the end. -/

namespace RefPool

variable {κ τ : Type}

namespace Store

variable {store middle next : Store κ τ} {e : EntryId} {entry : Entry κ τ}

/-- When the last reference of an entry was released. -/
def releasedAt (store : Store κ τ) (e : EntryId) : Int :=
  (store.heap[e]?).elim 0 Entry.lastReleasedAt

/-- Whether an entry is there and held by nobody. -/
def unheld (store : Store κ τ) (e : EntryId) : Bool :=
  (store.heap[e]?).any fun entry => entry.refCount = 0

/-- Nodes leave the list at most, and no entry is stamped. -/
structure Unlists (store next : Store κ τ) : Prop where
  idle : next.idle.Sublist store.idle
  stamps : ∀ e, next.releasedAt e = store.releasedAt e

/-- The stamp of an entry that is left alone stays. -/
theorem releasedAt_congr (same : next.heap[e]? = store.heap[e]?) :
    next.releasedAt e = store.releasedAt e := by
  -- The stamp is read from the heap.
  rw [releasedAt, releasedAt, same]

namespace Unlists

/-- Doing nothing unlists nothing. -/
theorem refl (store : Store κ τ) : Unlists store store :=
  -- The list is a sublist of itself.
  ⟨.refl _, fun _ => rfl⟩

/-- Operations that unlist nodes compose. -/
theorem trans (first : Unlists store middle) (second : Unlists middle next) :
    Unlists store next where
  -- Sublists and equations compose.
  idle := second.idle.trans first.idle
  stamps := fun e => (second.stamps e).trans (first.stamps e)

/-- Assigning fields other than the stamp of an entry unlists nodes at most. -/
theorem reassign (e : EntryId) (assign : Entry κ τ → Entry κ τ)
    (heap : next.heap = store.heap.modify e assign)
    (stamp : ∀ entry, (assign entry).lastReleasedAt = entry.lastReleasedAt)
    (idle : next.idle.Sublist store.idle) : Unlists store next where
  -- The stamp of the entry is carried over, and other entries are left alone.
  idle := idle
  stamps := by
    intro other
    simp only [releasedAt, heap]
    by_cases same : e = other
    · subst same
      cases found : store.heap[e]? <;> simp [found, stamp]
    · rw [Arena.getElem?_modify_other _ _ same]

/-- Forgetting the list unlists every node. -/
theorem reset (store : Store κ τ) : Unlists store store.resetIdle :=
  -- The empty list is a sublist of any.
  ⟨List.nil_sublist _, fun _ => rfl⟩

variable [DecidableEq κ]

/-- Evicting an entry unlists it. -/
theorem evict (store : Store κ τ) (e : EntryId) :
    Unlists store ((store.unlink e).beginDispose e) := by
  -- The disposal writes nothing to the list, so unlinking alone counts.
  refine reassign e _ (evict_heap store e) (fun _ => rfl) ?_
  rw [beginDispose_idle, unlink_idle]
  exact idleRemove_sublist

/-- Discarding an entry unlists it. -/
theorem discard (store : Store κ τ) (e : EntryId) :
    Unlists store ((store.removeEntry e).beginDispose e) := by
  -- The disposal writes nothing to the list, so removing alone counts.
  refine reassign e _ (discard_heap store e) (fun _ => rfl) ?_
  rw [beginDispose_idle, removeEntry_idle]
  exact idleRemove_sublist

omit [DecidableEq κ] in
/-- Taking a reference of an entry unlists it. -/
theorem checkout (store : Store κ τ) (e : EntryId) : Unlists store (store.checkout e) :=
  -- A checkout may take the entry off the list.
  reassign e _ (checkout_heap store e) (fun _ => rfl) checkout_sublist

/-- Orphaning an entry unlists nothing. -/
theorem orphan (store : Store κ τ) (e : EntryId) (key : κ) :
    Unlists store ((store.deleteKey e).orphan key e) :=
  -- Neither operation writes to the list.
  reassign e _ (orphan_heap store e key) (fun _ => rfl) (by simp [Store.orphan])

end Unlists

/-- Nodes leave the list, and perhaps an entry that was held until now joins it at the end. -/
structure Relists (now : Int) (store next : Store κ τ) : Prop where
  idle : ∃ fresh : Option EntryId, next.idle.Sublist (store.idle ++ fresh.toList) ∧
    ∀ e ∈ fresh, store.unheld e = false ∧ next.unheld e = true ∧ next.releasedAt e = now
  stamps : ∀ e ∈ store.idle, next.releasedAt e = store.releasedAt e

/-- Unlisting nodes adds none. -/
theorem Unlists.relists {now : Int} (unlists : Unlists store next) : Relists now store next where
  -- No entry is fresh.
  idle := ⟨none, by simpa using unlists.idle, by simp⟩
  stamps := fun e _ => unlists.stamps e

end Store

namespace State

variable [DecidableEq κ] {options : PoolOptions} {s next : State κ τ} {e : EntryId}

/-- A turn of the reservation loop unlists nodes at most. -/
theorem SlotEffect.unlists {a : AcquireId} (effect : SlotEffect options s a next) :
    s.toStore.Unlists next.toStore := by
  -- Only an eviction writes to the list.
  cases effect with
  | evicted victim => exact .evict s.toStore victim
  | unbounded | refused | reserved | exhausted | parked => exact .refl s.toStore

/-- `obtain` from the orphan lookup on unlists nodes at most. -/
theorem MissEffect.unlists {a : AcquireId} {key : κ} (effect : MissEffect options s a key next) :
    s.toStore.Unlists next.toStore := by
  -- A resurrection writes to the maps only.
  cases effect with
  | resurrected e => exact ⟨.refl _, fun _ => rfl⟩
  | refused => exact .refl s.toStore
  | slot _ _ _ effect => exact effect.unlists

/-- Dropping a reference lists the entry with the last one, at the present time. -/
theorem ReleaseEffect.relists (effect : ReleaseEffect s e next) (wf : s.toStore.WellFormed) :
    s.toStore.Relists s.now next.toStore := by
  -- An entry that loses its last reference was held, and so not listed.
  have others {entry : Entry κ τ} (found : s.heap[e]? = some entry) (last : entry.refCount = 1)
      {store : Store κ τ} (only : Store.OnlyEntry e s.toStore store) (other : EntryId)
      (inside : other ∈ s.idle) : store.releasedAt other = s.toStore.releasedAt other := by
    refine Store.releasedAt_congr (only.heap other ?_)
    rintro rfl
    have := wf.unheld_of_listed inside found
    omega
  cases effect with
  | ignored => exact (Store.Unlists.refl s.toStore).relists
  | dropped => exact Store.Unlists.relists (.reassign e _ rfl (fun _ => rfl) (.refl _))
  | retired entry found _ last =>
    show s.toStore.Relists s.now ((((s.dropReference e).stampReleased e).toStore.removeEntry
      e).beginDispose e)
    rw [stampReleased_dropReference]
    refine ⟨⟨none, ?_, by simp⟩, others found last (.retire s.toStore e _)⟩
    have flag (entry : Entry κ τ) : (lastDrop s.now entry).inIdle = entry.inIdle := rfl
    rw [Store.beginDispose_idle, Store.removeEntry_idle, (Store.idleRemove_update flag).1]
    simpa using Store.idleRemove_sublist
  | freed entry found _ last =>
    show s.toStore.Relists s.now (((s.dropReference e).stampReleased e).toStore.idleAppend e)
    rw [stampReleased_dropReference]
    refine ⟨⟨some e, Store.idleAppend_sublist, ?_⟩, others found last (.free s.toStore e _)⟩
    rintro _ ⟨⟩
    refine ⟨by simp [Store.unheld, found, last], ?_, ?_⟩
    · rw [Store.unheld, Store.free_heap, Arena.getElem?_modify_self _ found]
      simp [lastDrop, last]
    · rw [Store.releasedAt, Store.free_heap, Arena.getElem?_modify_self _ found]
      rfl

/-- A drain unlists every node. -/
theorem unlists_drain (wf : s.toStore.WellFormed) : s.toStore.Unlists s.drain.toStore := by
  -- The walks of a drain only take nodes off the list.
  obtain ⟨last, waits, -, kept, -, same⟩ := drain_rule (s := s)
    (P := fun next _ => s.toStore.Unlists next.toStore) wf
    (fun next _ e _ _ unlists _ _ _ => unlists.trans (.evict next.toStore e))
    (fun next _ e entry _ unlists _ _ _ => unlists.trans
      ((Store.Unlists.orphan next.toStore e entry.key).trans
        (.reassign e _ rfl (fun _ => rfl) (.refl _))))
    (fun next _ e _ _ unlists _ _ _ => unlists.trans
      (.reassign e _ (condemnOrphan_heap next e) (fun _ => rfl) (.refl _)))
    (.refl s.toStore)
  rw [same]
  exact kept.trans (.reset last.toStore)

/-- A sweep unlists nodes at most. -/
theorem unlists_sweep (wf : s.toStore.WellFormed) :
    s.toStore.Unlists (s.sweep options).toStore :=
  -- Each turn of the loop evicts at most.
  (sweep_rule options (P := fun next => s.toStore.Unlists next.toStore) wf
    (fun next node _ _ unlists _ _ _ => unlists.trans (.evict next.toStore node))
    (fun _ _ => id) (.refl _)).2

/-- Every step unlists nodes, or lists one entry more. -/
theorem Effect.relists {action : Action κ τ} (core : Core s)
    (effect : Effect options s action next) : s.toStore.Relists s.now next.toStore := by
  have wf := core.store
  -- Releases and new entries go to the end of the list, with the time of day as their stamp.
  cases effect with
  | shared key e => exact Store.Unlists.relists (.checkout s.toStore e)
  | delivered a acquire e => exact Store.Unlists.relists (.checkout s.toStore e)
  | released h handle next found holding effect => exact effect.relists wf
  | releasedKey key e next bound effect => exact effect.relists wf
  | drain => exact (unlists_drain wf).relists
  | stop => exact (unlists_drain (s := s.setClosed.stopTimers) wf).relists
  | sweep => exact (unlists_sweep wf).relists
  | missed a acquire after next called phase turn absent effect => exact effect.unlists.relists
  | discarded a acquire live next called phase effect => exact effect.unlists.relists
  | resumed a acquire w waiter next called phase found woken effect =>
    exact effect.unlists.relists
  | refuted a acquire live => exact Store.Unlists.relists (.discard s.toStore live)
  -- The new entry stands at the end, and carries the time of now.
  | inserted x exec resource =>
    refine ⟨⟨some s.heap.length, ?_, ?_⟩, fun e inside => ?_⟩
    · show ((s.toStore.insert exec.key resource s.now).idle).Sublist (s.idle ++ [s.heap.length])
      rw [Store.insert_idle]
    · rintro _ ⟨⟩
      refine ⟨by simp [Store.unheld], ?_, ?_⟩
      · show (s.toStore.insert exec.key resource s.now).unheld s.heap.length = true
        simp [Store.unheld, Store.insert_heap]
      · show (s.toStore.insert exec.key resource s.now).releasedAt s.heap.length = s.now
        simp [Store.releasedAt, Store.insert_heap]
    · refine Store.releasedAt_congr ?_
      show (s.toStore.insert exec.key resource s.now).heap[e]? = s.heap[e]?
      obtain ⟨entry, found, -⟩ := wf.listed e inside
      rw [Store.insert_heap, found]
      exact Arena.getElem?_push_of_some _ found
  | disposeSettled e entry =>
    refine Store.Unlists.relists (.reassign e _ (finishDispose_heap options s e entry)
      (fun _ => rfl) ?_)
    simp [finishDispose, dropBreaker, emit]
  | queued | releasedAgain | releasedNone | start | gcKeyState | emitStats | timeout | clock
  | validating | returned | abandoned | breakerless | creating | failed | drained | unvalidated
  | passed | factoryCalled | factorySettled | execRejected | execLate | lateDisposeSettled
  | breakerChanged => exact (Store.Unlists.refl s.toStore).relists

end State

end RefPool
