import RefPool.Proofs.Frame

/-! The exact store: every entry is listed, bound and counted just as its fields say. -/

namespace RefPool.Store

variable {κ τ : Type} [DecidableEq κ]

/-- Where an entry stands in a store that accounts for it. -/
structure Accounted (store : Store κ τ) (e : EntryId) (entry : Entry κ τ) : Prop where
  /-- The flag of an entry says whether it is on the idle list. -/
  flagged : entry.inIdle = true ↔ e ∈ store.idle
  /-- The idle list holds the live entries nobody holds. -/
  listed : e ∈ store.idle ↔ store.entries.get? entry.key = some e ∧ entry.refCount = 0
  /-- An entry whose disposal has not begun is bound to its key. -/
  kept : entry.disposing = false →
    store.entries.get? entry.key = some e ∨ store.orphans.get? entry.key = some e

/-- Every entry is accounted for, and the idle count counts the idle list. -/
structure Exact (store : Store κ τ) : Prop where
  each : ∀ (e : Nat) entry, store.heap[e]? = some entry → Accounted store e entry
  count : store.idleCount = store.idle.length

/-- A new store is exact. -/
theorem exact_empty : (empty : Store κ τ).Exact where
  -- There are no entries.
  each := by simp [empty]
  count := rfl

namespace Accounted

variable {store next : Store κ τ} {e other : EntryId} {entry after : Entry κ τ}

/-- An operation on one entry leaves the others accounted for. -/
theorem only (accounted : Accounted store other entry) (differ : other ≠ e)
    (only : OnlyEntry e store next) : Accounted next other entry where
  -- The place of the entry is read off the maps and the list, which keep it there.
  flagged := by rw [only.mem_idle differ, accounted.flagged]
  listed := by rw [only.mem_idle differ, only.entries _ _ differ, accounted.listed]
  kept := by
    rw [only.entries _ _ differ, only.orphans _ _ differ]
    exact accounted.kept

/-- An entry off the list whose disposal has begun, or that is bound, is accounted for. -/
theorem unlisted (flag : after.inIdle = false) (absent : e ∉ store.idle)
    (other : store.entries.get? after.key = some e → 0 < after.refCount)
    (kept : after.disposing = false →
      store.entries.get? after.key = some e ∨ store.orphans.get? after.key = some e) :
    Accounted store e after where
  -- Nothing lists the entry, so nothing may say that it should be listed.
  flagged := by simp [flag, absent]
  listed := by
    refine ⟨fun inside => absurd inside absent, fun ⟨bound, unheld⟩ => ?_⟩
    have := other bound
    omega
  kept := kept

/-- A held entry is off the list, and its flag says so. -/
theorem unlisted_of_held (accounted : Accounted store e entry) (held : 0 < entry.refCount) :
    e ∉ store.idle ∧ entry.inIdle = false := by
  -- The list holds unheld entries only, and the flag says what is listed.
  have unlisted : e ∉ store.idle := fun inside => by
    have := (accounted.listed.mp inside).2
    omega
  exact ⟨unlisted, Bool.eq_false_iff.mpr fun raised => unlisted (accounted.flagged.mp raised)⟩

end Accounted

namespace Exact

variable {store next : Store κ τ} {e : EntryId} {entry : Entry κ τ}

/-- An operation on one entry has only that entry to account for. -/
theorem only (accurate : store.Exact) (only : OnlyEntry e store next)
    (own : ∀ after, next.heap[e]? = some after → Accounted next e after)
    (count : next.idleCount = next.idle.length) : next.Exact where
  -- Every other entry is accounted for as before.
  each := by
    intro other after found
    by_cases same : other = e
    · exact own after (same ▸ found) |> (same ▸ ·)
    · rw [only.heap other same] at found
      exact (accurate.each other after found).only same only
  count := count

omit [DecidableEq κ] in
/-- Listing an entry counts it. -/
theorem count_idleAppend (count : store.idleCount = store.idle.length) :
    (store.idleAppend e).idleCount = (store.idleAppend e).idle.length := by
  -- The count goes up as the node is added.
  unfold idleAppend
  split
  · exact count
  · split
    · exact count
    · simp [count]

/-- Unlisting an entry discounts it. -/
theorem count_idleRemove (accurate : store.Exact) :
    (store.idleRemove e).idleCount = (store.idleRemove e).idle.length := by
  -- The count goes down as the node is taken out, which was on the list by its flag.
  unfold idleRemove
  split
  · exact accurate.count
  · rename_i entry found
    split
    · rename_i flagged
      have inside := (accurate.each e entry found).flagged.mp flagged
      have positive := List.length_pos_of_mem inside
      simp only [accurate.count, List.length_erase_of_mem inside]
      omega
    · exact accurate.count

/-- Assigning fields that say nothing about an entry's place keeps the store exact. -/
theorem update (accurate : store.Exact) (e : EntryId) (assign : Entry κ τ → Entry κ τ)
    (key : ∀ record, (assign record).key = record.key)
    (flag : ∀ record, (assign record).inIdle = record.inIdle)
    (references : ∀ record, (assign record).refCount = record.refCount)
    (disposing : ∀ record, (assign record).disposing = record.disposing) :
    (store.update e assign).Exact := by
  -- The place of an entry is read off the four fields that are not assigned.
  refine accurate.only (.update store e assign) (fun after found => ?_) accurate.count
  rcases Arena.getElem?_modify_cases found with ⟨-, record, before, rfl⟩ | ⟨differ, -⟩
  · have accounted := accurate.each e record before
    exact ⟨by rw [flag]; exact accounted.flagged,
      by rw [key, references]; exact accounted.listed,
      by rw [key, disposing]; exact accounted.kept⟩
  · exact absurd rfl differ

/-- The waiters of an entry say nothing about its place. -/
theorem setWaiters (accurate : store.Exact) (waiters : Entry κ τ → List DisposalWaitId) :
    (store.update e fun entry => { entry with disposeWaiters := waiters entry }).Exact :=
  -- The list of waiters is not among the fields in question.
  accurate.update e _ (fun _ => rfl) (fun _ => rfl) (fun _ => rfl) fun _ => rfl

/-- Condemning an entry does not move it. -/
theorem condemn (accurate : store.Exact) :
    (store.update e fun entry => { entry with condemned := true }).Exact :=
  -- That flag is not among the fields in question.
  accurate.update e _ (fun _ => rfl) (fun _ => rfl) (fun _ => rfl) fun _ => rfl

/-- Ending a disposal does not move the entry. -/
theorem finish (accurate : store.Exact) :
    (store.update e fun entry => { entry with disposed := true }).Exact :=
  -- That flag is not among the fields in question.
  accurate.update e _ (fun _ => rfl) (fun _ => rfl) (fun _ => rfl) fun _ => rfl

/-- Taking a reference keeps the store exact. -/
theorem checkout (accurate : store.Exact) (wf : store.WellFormed)
    (found : store.heap[e]? = some entry) : (store.checkout e).Exact := by
  -- A referenced entry is off the list, whether this is its first reference or not.
  have accounted := accurate.each e entry found
  have unlisted : e ∉ (store.checkout e).idle := by
    by_cases unheld : entry.refCount = 0
    · rw [(checkout_first found unheld).1, wf.mem_idleRemove]
      exact fun inside => inside.1 rfl
    · rw [(checkout_further found (by omega)).1, accounted.listed]
      exact fun inside => unheld inside.2
  refine accurate.only (.checkout store e) (fun after read => ?_) ?_
  · rw [checkout_heap, Arena.getElem?_modify_self _ found, Option.some.injEq] at read
    subst read
    refine .unlisted ?_ unlisted (by simp) (by simpa using accounted.kept)
    by_cases unheld : entry.refCount = 0
    · simp [unheld]
    · simp only [unheld, if_false]
      exact Bool.eq_false_iff.mpr fun raised => unheld ((wf.sound e entry found).flagged raised)
  · by_cases unheld : entry.refCount = 0
    · rw [(checkout_first found unheld).1, (checkout_first found unheld).2]
      exact accurate.count_idleRemove
    · have further := checkout_further found (Nat.pos_of_ne_zero unheld)
      rw [further.1, further.2]
      exact accurate.count

/-- Dropping one of several references keeps the store exact. -/
theorem drop (accurate : store.Exact) (found : store.heap[e]? = some entry)
    (shared : 1 < entry.refCount) :
    (store.update e fun entry => { entry with refCount := entry.refCount - 1 }).Exact := by
  -- The entry is held before and after, so it is off the list throughout.
  have accounted := accurate.each e entry found
  refine accurate.only (.update store e _) (fun after read => ?_) accurate.count
  rw [update_heap, Arena.getElem?_modify_self _ found, Option.some.injEq] at read
  subst read
  obtain ⟨unlisted, lowered⟩ := accounted.unlisted_of_held (by omega)
  exact .unlisted lowered unlisted (fun _ => by dsimp only; omega) accounted.kept

/-- Listing a live entry whose last reference is gone keeps the store exact. -/
theorem free (accurate : store.Exact) (found : store.heap[e]? = some entry)
    (assign : Entry κ τ → Entry κ τ) (key : (assign entry).key = entry.key)
    (flag : (assign entry).inIdle = entry.inIdle)
    (unheld : (assign entry).refCount = 0) (held : 0 < entry.refCount)
    (bound : store.entries.get? entry.key = some e) :
    ((store.update e assign).idleAppend e).Exact := by
  -- The entry is bound and now unheld, so the list is where it belongs.
  have accounted := accurate.each e entry found
  have lowered := (accounted.unlisted_of_held held).2
  have assigned : (store.update e assign).heap[e]? = some (assign entry) :=
    Arena.getElem?_modify_self assign found
  refine accurate.only (.free store e assign) (fun after read => ?_)
    (count_idleAppend (by simpa using accurate.count))
  rw [idleAppend_heap, Arena.getElem?_modify_self _ assigned, Option.some.injEq] at read
  subst read
  have listed : e ∈ ((store.update e assign).idleAppend e).idle := by
    rw [idleAppend_idle assigned (flag.trans lowered)]
    simp
  refine ⟨by simp [listed], ?_, fun _ => .inl ?_⟩
  · simp [listed, key, unheld, bound]
  · simp [key, bound]

/-- Removing an entry and starting its disposal keeps the store exact. -/
theorem retire (accurate : store.Exact) (wf : store.WellFormed)
    (found : store.heap[e]? = some entry) (assign : Entry κ τ → Entry κ τ)
    (flag : ∀ record, (assign record).inIdle = record.inIdle)
    (ended : (assign entry).disposed = true → (assign entry).disposing = true) :
    (((store.update e assign).removeEntry e).beginDispose e).Exact := by
  -- The entry ends up in neither map and off the list, with its disposal begun.
  have assigned : (store.update e assign).heap[e]? = some (assign entry) :=
    Arena.getElem?_modify_self assign found
  have removed := removeEntry_found _ _ assigned
  refine accurate.only (.retire store e assign) (fun after read => ?_) ?_
  · rw [beginDispose_doomed _ e removed ended, Option.some.injEq] at read
    subst read
    refine .unlisted rfl ?_ (fun bound => ?_) (by simp)
    · rw [beginDispose_idle, removeEntry_idle, (idleRemove_update flag).1, wf.mem_idleRemove]
      exact fun inside => inside.1 rfl
    · rw [discard_entries _ _ assigned, OrderedMap.get?_deleteBinding_eq_some] at bound
      exact absurd ⟨rfl, rfl⟩ bound.2
  · rw [beginDispose_idleCount, beginDispose_idle, removeEntry_idle, removeEntry_idleCount,
      (idleRemove_update flag).1, (idleRemove_update flag).2]
    exact accurate.count_idleRemove

/-- Removing and disposing of an entry keeps the store exact. -/
theorem discard (accurate : store.Exact) (wf : store.WellFormed)
    (found : store.heap[e]? = some entry) : ((store.removeEntry e).beginDispose e).Exact := by
  -- It is the last release of an entry whose fields nobody reassigns.
  rw [← update_id store e]
  exact accurate.retire wf found id (fun _ => rfl) (wf.sound e entry found).ended

/-- Evicting a live entry keeps the store exact. -/
theorem evict (accurate : store.Exact) (wf : store.WellFormed)
    (found : store.heap[e]? = some entry) (bound : store.entries.get? entry.key = some e) :
    ((store.unlink e).beginDispose e).Exact := by
  -- Unlinking takes the entry off the list and out of the live map at once.
  have unlinked := unlink_found _ _ found
  refine accurate.only (.evict found bound) (fun after read => ?_) ?_
  · rw [beginDispose_doomed _ e unlinked (wf.sound e entry found).ended, Option.some.injEq] at read
    subst read
    refine .unlisted rfl ?_ (fun live => ?_) (by simp)
    · rw [beginDispose_idle, unlink_idle, wf.mem_idleRemove]
      exact fun inside => inside.1 rfl
    · rw [beginDispose_entries] at live
      exact absurd live (wf.unlink_unbound found _)
  · rw [beginDispose_idleCount, beginDispose_idle, unlink_idle, unlink_idleCount]
    exact accurate.count_idleRemove

/-- A listed entry is live under its key. -/
theorem bound_of_listed (accurate : store.Exact) (found : store.heap[e]? = some entry)
    (listed : e ∈ store.idle) : store.entries.get? entry.key = some e :=
  -- Exactness says so of every listed entry.
  ((accurate.each e entry found).listed.mp listed).1

/-- Inserting an entry under an absent key keeps the store exact. -/
theorem insert (accurate : store.Exact) {key : κ} (resource : τ) (now : Int)
    (absent : store.entries.get? key = none) : (store.insert key resource now).Exact := by
  -- The fresh entry is bound and unheld, and is listed as such.
  refine accurate.only (.insert store resource now absent) (fun after read => ?_)
    (count_idleAppend accurate.count)
  simp only [Store.insert, idleAppend_heap, Arena.modify_push, List.getElem?_concat_length,
    Option.some.injEq] at read
  subst read
  have listed : store.heap.length ∈ (store.insert key resource now).idle := by
    simp [insert_idle]
  have bound := insert_bound store key resource now
  exact ⟨⟨fun _ => listed, fun _ => rfl⟩, ⟨fun _ => ⟨bound, rfl⟩, fun _ => listed⟩,
    fun _ => .inl bound⟩

/-- Resurrecting an orphan keeps the store exact. -/
theorem resurrect (accurate : store.Exact) (wf : store.WellFormed) {key : κ}
    (bound : store.orphans.get? key = some e) : (store.resurrect key e).Exact := by
  -- An orphan is held, so it comes back to the live map without being listed.
  refine accurate.only (.resurrect (wf.not_live_of_orphaned bound) bound) (fun after read => ?_)
    accurate.count
  have promised := wf.orphaned_at bound read
  have accounted := accurate.each e after read
  obtain ⟨unlisted, lowered⟩ := accounted.unlisted_of_held promised.held
  refine .unlisted lowered unlisted (fun _ => promised.held) fun _ => .inl ?_
  simp [Store.resurrect, promised.key]

/-- Orphaning a held live entry keeps the store exact. -/
theorem orphan (accurate : store.Exact) (wf : store.WellFormed)
    (found : store.heap[e]? = some entry) (bound : store.entries.get? entry.key = some e)
    (held : 0 < entry.refCount) : ((store.deleteKey e).orphan entry.key e).Exact := by
  -- A held live entry is off the list, and stays accounted for among the orphans.
  refine accurate.only (.orphan found bound (wf.apart _ _ bound)) (fun after read => ?_)
    (by simpa [Store.orphan] using accurate.count)
  simp only [Store.orphan, update_heap, deleteKey_heap] at read
  rw [Arena.getElem?_modify_self _ found, Option.some.injEq] at read
  subst read
  have accounted := accurate.each e entry found
  obtain ⟨unlisted, lowered⟩ := accounted.unlisted_of_held held
  refine .unlisted lowered (by simpa [Store.orphan] using unlisted) (fun _ => held)
    fun _ => .inr ?_
  simp [Store.orphan]

/-- With no live entry left the idle list is empty already. -/
theorem resetIdle (accurate : store.Exact) (wf : store.WellFormed)
    (nothing : ∀ key, store.entries.get? key = none) : store.resetIdle = store := by
  -- The list holds live entries only, so it is empty and there is nothing to forget.
  have unlisted : store.idle = [] := by
    rw [List.eq_nil_iff_forall_not_mem]
    intro e inside
    obtain ⟨entry, found, -⟩ := wf.listed e inside
    have bound := accurate.bound_of_listed found inside
    simp [nothing] at bound
  have uncounted := accurate.count
  obtain ⟨heap, entries, orphans, idle, idleCount⟩ := store
  simp only at unlisted uncounted
  simp [Store.resetIdle, unlisted, uncounted]

end Exact

end RefPool.Store
