import RefPool.Proofs.Closed
import RefPool.Proofs.Frame
import RefPool.Proofs.Undrained

/-! While a pool stays closed what is live is condemned, and what is not disposed of stays bound. -/

namespace RefPool

variable {κ τ : Type} [DecidableEq κ]

namespace Store

/-- Every entry whose disposal has not begun is bound to its key in one of the maps. -/
def Bound (store : Store κ τ) : Prop :=
  ∀ (e : Nat) entry, store.heap[e]? = some entry → entry.disposing = false →
    store.entries.get? entry.key = some e ∨ store.orphans.get? entry.key = some e

/-- What a closed pool keeps of its entries: the live ones are condemned, and all are bound. -/
structure Leaving (store : Store κ τ) : Prop where
  doomed : ∀ (e : Nat) entry, store.heap[e]? = some entry →
    store.entries.get? entry.key = some e → entry.condemned = true
  bound : store.Bound

variable {store next : Store κ τ} {e : EntryId} {entry : Entry κ τ}

/-- An exact store has every undisposed entry bound. -/
theorem Exact.bound (accurate : store.Exact) : store.Bound :=
  -- An undisposed entry that is accounted for is bound.
  fun e entry found => (accurate.each e entry found).kept

/-- An operation on one entry leaves the others bound. -/
theorem Bound.only (bound : store.Bound) (only : OnlyEntry e store next)
    (own : ∀ after, next.heap[e]? = some after → after.disposing = false →
      next.entries.get? after.key = some e ∨ next.orphans.get? after.key = some e) :
    next.Bound := by
  -- The heap and both maps read the same at every other entry.
  intro other after found fresh
  by_cases same : other = e
  · subst same
    exact own after found fresh
  · rw [only.heap other same] at found
    rw [only.entries _ _ same, only.orphans _ _ same]
    exact bound other after found fresh

namespace Leaving

/-- An operation on one entry has only that entry to account for. -/
theorem only (leaving : store.Leaving) (only : OnlyEntry e store next)
    (doomed : ∀ after, next.heap[e]? = some after → next.entries.get? after.key = some e →
      after.condemned = true)
    (own : ∀ after, next.heap[e]? = some after → after.disposing = false →
      next.entries.get? after.key = some e ∨ next.orphans.get? after.key = some e) :
    next.Leaving where
  -- The heap and the live map read the same at every other entry.
  doomed := by
    intro other after found live
    by_cases same : other = e
    · subst same
      exact doomed after found live
    · rw [only.heap other same] at found
      rw [only.entries _ _ same] at live
      exact leaving.doomed other after found live
  bound := leaving.bound.only only own

/-- Assigning fields that bind nothing, spare nobody and end nothing keeps all bound. -/
theorem reassign (leaving : store.Leaving) (only : OnlyEntry e store next)
    (assign : Entry κ τ → Entry κ τ) (heap : next.heap = store.heap.modify e assign)
    (entries : next.entries = store.entries) (orphans : next.orphans = store.orphans)
    (key : ∀ record, (assign record).key = record.key)
    (condemned : ∀ record, (assign record).condemned = record.condemned)
    (disposing : ∀ record, (assign record).disposing = record.disposing) : next.Leaving := by
  -- Keys, condemnations and disposals read back unchanged from the assigned record.
  refine leaving.only only (fun after found live => ?_) fun after found fresh => ?_ <;>
    rw [heap] at found <;>
    rcases Arena.getElem?_modify_cases found with ⟨-, old, before, rfl⟩ | ⟨differ, -⟩
  · rw [condemned]
    rw [key, entries] at live
    exact leaving.doomed e old before live
  · exact absurd rfl differ
  · rw [key, entries, orphans]
    rw [disposing] at fresh
    exact leaving.bound e old before fresh
  · exact absurd rfl differ

/-- Removing an entry and starting its disposal leaves the others bound. -/
theorem discard (leaving : store.Leaving) (found : store.heap[e]? = some entry)
    (ended : entry.disposed = true → entry.disposing = true) :
    ((store.removeEntry e).beginDispose e).Leaving := by
  -- The entry itself is no longer live, and its disposal has begun.
  have last := beginDispose_doomed _ e (removeEntry_found _ _ found) ended
  refine leaving.only (.discard store e) (fun after read live => ?_) fun after read fresh => ?_
  · cases last.symm.trans read
    rw [discard_entries _ _ found, OrderedMap.get?_deleteBinding_eq_some] at live
    exact absurd ⟨rfl, rfl⟩ live.2
  · cases last.symm.trans read
    simp at fresh

/-- Resurrecting an orphan leaves it condemned. -/
theorem resurrect (leaving : store.Leaving) (wf : store.WellFormed) {key : κ}
    (bound : store.orphans.get? key = some e) : (store.resurrect key e).Leaving := by
  -- The orphan is condemned already, and bound in the live map from now on.
  refine leaving.only (.resurrect (wf.not_live_of_orphaned bound) bound) (fun after read _ => ?_)
    fun after read _ => .inl ?_
  · exact (wf.orphaned_at bound read).condemned
  · have promised := wf.orphaned_at bound read
    simp [Store.resurrect, promised.key]

end Leaving

end Store

namespace State

variable {options : PoolOptions} {s next : State κ τ} {e : EntryId}

/-- Condemning a held live entry leaves everything bound. -/
theorem bound_condemnHeld {entry : Entry κ τ} (wf : s.toStore.WellFormed) (bound : s.toStore.Bound)
    (found : s.heap[e]? = some entry) (live : s.entries.get? entry.key = some e) :
    (s.condemnHeld e entry.key).toStore.Bound := by
  -- The entry moves from the live map to the orphans, under the key that it was made for.
  refine bound.only (onlyEntry_condemnHeld wf found live) fun after read _ => .inr ?_
  rw [condemnHeld_heap, Arena.getElem?_modify_self _ found] at read
  cases read
  exact OrderedMap.get?_set_self _ _ _

/-- Condemning an orphan leaves everything bound. -/
theorem bound_condemnOrphan {entry : Entry κ τ} (bound : s.toStore.Bound)
    (found : s.heap[e]? = some entry) (orphaned : s.orphans.get? entry.key = some e) :
    (s.condemnOrphan e).toStore.Bound := by
  -- An orphan stays where it is bound; only its flag and its waiter change.
  refine bound.only (onlyEntry_condemnOrphan s e) fun after read _ => .inr ?_
  rw [condemnOrphan_heap, Arena.getElem?_modify_self _ found] at read
  cases read
  exact orphaned

/-- A drain leaves nothing live, and everything bound that was. -/
theorem leaving_drain (wf : s.toStore.WellFormed) (bound : s.toStore.Bound) :
    s.drain.toStore.Leaving ∧ s.drain.sweepTimer = false := by
  -- Each turn of the drain accounts for the entry that it disposes of or condemns.
  obtain ⟨last, waits, -, ⟨kept, unarmed⟩, nothing, same⟩ := drain_rule (s := s)
    (P := fun next _ => next.toStore.Bound ∧ next.sweepTimer = false) wf
    (fun next _ e entry wf ⟨bound, unarmed⟩ found live _ => by
      refine ⟨bound.only (.evict found live) fun after read fresh => ?_, unarmed⟩
      have last := Store.beginDispose_doomed _ e (Store.unlink_found _ _ found)
        (wf.sound e entry found).ended
      cases last.symm.trans read
      simp at fresh)
    (fun next _ e entry wf ⟨bound, unarmed⟩ found live _ =>
      ⟨bound_condemnHeld wf bound found live, unarmed⟩)
    (fun next _ e entry _ ⟨bound, unarmed⟩ found orphaned _ =>
      ⟨bound_condemnOrphan bound found orphaned, unarmed⟩)
    ⟨bound, rfl⟩
  rw [same]
  -- Once the drain is through, the live map is empty.
  refine ⟨⟨fun e entry _ live => ?_, kept⟩, unarmed⟩
  have dead : last.entries.get? entry.key = some e := live
  simp [nothing] at dead

/-- Dropping a reference keeps everything bound that nobody disposes of. -/
theorem ReleaseEffect.leaving (effect : ReleaseEffect s e next) (wf : s.toStore.WellFormed)
    (leaving : s.toStore.Leaving) : next.toStore.Leaving := by
  -- Dropping the reference changes only the count; what follows unbinds or frees the entry.
  cases effect with
  | ignored => exact leaving
  | dropped =>
    exact leaving.reassign (.update s.toStore e _) _ rfl rfl rfl (fun _ => rfl) (fun _ => rfl)
      fun _ => rfl
  | retired entry found =>
    show ((((s.dropReference e).stampReleased e).toStore.removeEntry e).beginDispose e).Leaving
    rw [stampReleased_dropReference]
    have dropped := leaving.reassign (.update s.toStore e (lastDrop s.now)) _ rfl rfl rfl
      (fun _ => rfl) (fun _ => rfl) fun _ => rfl
    exact dropped.discard (Arena.getElem?_modify_self _ found) (wf.sound e entry found).ended
  | freed entry found =>
    show (((s.dropReference e).stampReleased e).toStore.idleAppend e).Leaving
    rw [stampReleased_dropReference]
    exact leaving.reassign (.free s.toStore e _) _ (Store.free_heap _ _ _) (by simp) (by simp)
      (fun _ => rfl) (fun _ => rfl) fun _ => rfl

/-- A turn of the reservation loop leaves the store of a closed pool alone. -/
theorem SlotEffect.leaving {a : AcquireId} (effect : SlotEffect options s a next)
    (shut : s.closed = true) : next.toStore = s.toStore := by
  -- A closed pool refuses before it reserves, evicts or parks.
  cases effect with
  | unbounded | refused => rfl
  | reserved _ opened | evicted _ _ opened | exhausted _ opened | parked _ opened =>
    simp [shut] at opened

/-- `obtain` from the orphan lookup on only resurrects in a closed pool. -/
theorem MissEffect.leaving {a : AcquireId} {key : κ} (effect : MissEffect options s a key next)
    (wf : s.toStore.WellFormed) (shut : s.closed = true) (leaving : s.toStore.Leaving) :
    next.toStore.Leaving := by
  -- A closed pool never gets to the reservation loop.
  cases effect with
  | resurrected e bound => exact leaving.resurrect wf bound
  | refused => exact leaving
  | slot _ _ opened => simp [shut] at opened

/-- While the pool stays closed every step keeps the live condemned and the undisposed bound. -/
theorem Effect.leaving {action : Action κ τ} (core : Core s)
    (effect : Effect options s action next) (shut : s.closed = true)
    (unarmed : s.sweepTimer = false) (unopened : action ≠ .start)
    (leaving : s.toStore.Leaving) : next.toStore.Leaving ∧ next.sweepTimer = false := by
  -- References, handles and calls bind nothing; what unbinds an entry begins its disposal.
  have wf := core.store
  cases effect with
  | shared key e =>
    exact ⟨leaving.reassign (.checkout s.toStore e) _ (Store.checkout_heap _ _)
      (Store.checkout_entries _ _) (Store.checkout_orphans _ _) (fun _ => rfl)
      (fun _ => rfl) fun _ => rfl, unarmed⟩
  | delivered a acquire e =>
    exact ⟨leaving.reassign (.checkout s.toStore e) _ (Store.checkout_heap _ _)
      (Store.checkout_entries _ _) (Store.checkout_orphans _ _) (fun _ => rfl)
      (fun _ => rfl) fun _ => rfl, unarmed⟩
  | released h handle next found holding effect =>
    exact ⟨effect.leaving wf leaving, by cases effect <;> exact unarmed⟩
  | releasedKey key e next bound effect =>
    exact ⟨effect.leaving wf leaving, by cases effect <;> exact unarmed⟩
  -- Drains condemn what is live and stop at that; `stop` disarms the timers before.
  | drain => exact leaving_drain wf leaving.bound
  | stop => exact leaving_drain (s := s.setClosed.stopTimers) wf leaving.bound
  | start => exact absurd rfl unopened
  -- Without its timer the sweep does not run.
  | sweep armed => simp [unarmed] at armed
  | missed a acquire after next called phase turn absent effect =>
    exact ⟨effect.leaving wf shut leaving, by
      cases effect with
      | resurrected | refused => exact unarmed
      | slot _ _ opened => simp [shut] at opened⟩
  | discarded a acquire live next called phase effect =>
    exact ⟨effect.leaving wf shut leaving, by
      cases effect with
      | resurrected | refused => exact unarmed
      | slot _ _ opened => simp [shut] at opened⟩
  | resumed a acquire w waiter next called phase found woken effect =>
    exact ⟨effect.leaving shut ▸ leaving, by cases effect <;> exact unarmed⟩
  -- The refuted entry leaves the live map as its disposal begins.
  | refuted a acquire live called phase =>
    obtain ⟨entry, found, -⟩ := core.fits called phase
    exact ⟨leaving.discard found (wf.sound live entry found).ended, unarmed⟩
  -- A closed pool registers no entry.
  | inserted _ _ _ _ _ opened => simp [shut] at opened
  | disposeSettled e entry =>
    exact ⟨leaving.reassign ((Store.OnlyEntry.update s.toStore e _).trans (.update _ e _)) _
      (finishDispose_heap options s e entry) rfl rfl (fun _ => rfl) (fun _ => rfl) fun _ => rfl,
      unarmed⟩
  | queued | releasedAgain | releasedNone | gcKeyState | emitStats | timeout | clock | validating
  | returned | abandoned | breakerless | creating | failed | drained | unvalidated | passed
  | factoryCalled | factorySettled | execRejected | execLate | lateDisposeSettled
  | breakerChanged => exact ⟨leaving, unarmed⟩

/-- A run that never opens a closed pool keeps the live condemned and the undisposed bound. -/
theorem leaving_run {actions : List (Action κ τ)} (core : Core s) (shut : s.closed = true)
    (unarmed : s.sweepTimer = false) (leaving : s.toStore.Leaving)
    (unopened : Action.start ∉ actions)
    (ran : Runs.run (step options) s actions = some next) : next.toStore.Leaving := by
  -- What keeps the pool leaving is that it stays closed, with its sweep timer off.
  have allowed : ∀ action ∈ actions, action ≠ .start :=
    fun action inside same => unopened (same ▸ inside)
  have invariant := (Runs.guarded_of_forall allowed).run_invariant
    (fun s : State κ τ => Core s ∧ s.closed = true ∧ s.toStore.Leaving ∧ s.sweepTimer = false)
    (fun s action next ⟨core, shut, leaving, unarmed⟩ allowed stepped =>
      ⟨core_step core stepped,
        ((step_effect stepped).staysClosed core.store allowed).closed shut,
        (step_effect stepped).leaving core shut unarmed allowed leaving⟩)
    ⟨core, shut, leaving, unarmed⟩ ran
  exact invariant.2.2.1

end State

end RefPool
