import RefPool.Proofs.StoreLaws

/-! The shape of the keyed store that every run keeps, whatever the callers do. -/

namespace RefPool

variable {κ τ : Type}

namespace Entry

/-- What the live map promises of the entry bound to a key. -/
structure Live (entry : Entry κ τ) (key : κ) : Prop where
  key : entry.key = key
  undisposed : entry.disposing = false
  held : entry.condemned = true → 0 < entry.refCount

/-- What the orphan map promises of the entry bound to a key. -/
structure Orphaned (entry : Entry κ τ) (key : κ) : Prop where
  key : entry.key = key
  undisposed : entry.disposing = false
  condemned : entry.condemned = true
  held : 0 < entry.refCount

/-- What holds of every entry, bound or not. -/
structure Sound (entry : Entry κ τ) : Prop where
  flagged : entry.inIdle = true → entry.refCount = 0
  ended : entry.disposed = true → entry.disposing = true

/-- An entry whose disposal has not begun is not disposed. -/
theorem Sound.undisposed {entry : Entry κ τ} (sound : entry.Sound)
    (fresh : entry.disposing = false) : entry.disposed = false := by
  -- A disposal that ended must have begun.
  cases ended : entry.disposed with
  | false => rfl
  | true => exact absurd (sound.ended ended) (by simp [fresh])

end Entry

namespace Store

variable [DecidableEq κ]

/-- The shape of the two maps, the heap and the idle list. -/
structure WellFormed (store : Store κ τ) : Prop where
  live : ∀ key e, store.entries.get? key = some e →
    ∃ entry, store.heap[e]? = some entry ∧ entry.Live key
  orphaned : ∀ key e, store.orphans.get? key = some e →
    ∃ entry, store.heap[e]? = some entry ∧ entry.Orphaned key
  apart : ∀ key e, store.entries.get? key = some e → store.orphans.get? key = none
  listed : ∀ e ∈ store.idle, ∃ entry, store.heap[e]? = some entry ∧ entry.inIdle = true
  sound : ∀ (e : Nat) entry, store.heap[e]? = some entry → entry.Sound
  once : store.idle.Nodup

/-- A new store is well formed. -/
theorem wellFormed_empty : (empty : Store κ τ).WellFormed where
  -- There are neither entries nor bindings.
  live := by simp [empty]
  orphaned := by simp [empty]
  apart := by simp [empty]
  listed := by simp [empty]
  sound := by simp [empty]
  once := by simp [empty]

namespace WellFormed

variable {store next : Store κ τ} {e : EntryId} {entry : Entry κ τ}

/-- The entry bound to a live key. -/
theorem live_at (wf : store.WellFormed) {key : κ} (bound : store.entries.get? key = some e)
    (found : store.heap[e]? = some entry) : entry.Live key := by
  -- An address holds one record, so the promised entry is the found one.
  obtain ⟨record, present, promised⟩ := wf.live key e bound
  cases found.symm.trans present
  exact promised

/-- The entry bound to an orphaned key. -/
theorem orphaned_at (wf : store.WellFormed) {key : κ} (bound : store.orphans.get? key = some e)
    (found : store.heap[e]? = some entry) : entry.Orphaned key := by
  -- Both read the same record.
  obtain ⟨record, present, promised⟩ := wf.orphaned key e bound
  cases found.symm.trans present
  exact promised

/-- A listed entry is held by nobody. -/
theorem unheld_of_listed (wf : store.WellFormed) (listed : e ∈ store.idle)
    (found : store.heap[e]? = some entry) : entry.refCount = 0 := by
  -- The flag of a listed entry is up, and only unheld entries carry it.
  obtain ⟨record, present, flagged⟩ := wf.listed e listed
  cases found.symm.trans present
  exact (wf.sound e entry found).flagged flagged

/-- An orphaned key has no live entry. -/
theorem not_live_of_orphaned (wf : store.WellFormed) {key : κ}
    (bound : store.orphans.get? key = some e) : store.entries.get? key = none := by
  -- A key that were live and orphaned at once would contradict the maps being apart.
  cases live : store.entries.get? key with
  | none => rfl
  | some other =>
    have absent := wf.apart key other live
    simp [bound] at absent

/-- The live keys bind distinct entries. -/
theorem nodup_entries (wf : store.WellFormed) : store.entries.values.Nodup := by
  -- An entry has one key, so no two keys are bound to it.
  refine OrderedMap.nodup_values fun key other e left right => ?_
  obtain ⟨entry, found, promised⟩ := wf.live key e left
  exact promised.key.symm.trans (wf.live_at right found).key

/-- The orphaned keys bind distinct entries. -/
theorem nodup_orphans (wf : store.WellFormed) : store.orphans.values.Nodup := by
  -- An entry has one key.
  refine OrderedMap.nodup_values fun key other e left right => ?_
  obtain ⟨entry, found, promised⟩ := wf.orphaned key e left
  exact promised.key.symm.trans (wf.orphaned_at right found).key

/-- Unlisting an entry leaves exactly the others listed. -/
theorem mem_idleRemove (wf : store.WellFormed) {other : EntryId} :
    other ∈ (store.idleRemove e).idle ↔ other ≠ e ∧ other ∈ store.idle := by
  -- An entry whose flag is down is not listed, so nothing has to be unlinked.
  have skipped (unlisted : e ∉ store.idle) :
      other ∈ store.idle ↔ other ≠ e ∧ other ∈ store.idle :=
    ⟨fun inside => ⟨fun same => unlisted (same ▸ inside), inside⟩, And.right⟩
  cases found : store.heap[e]? with
  | none =>
    have unlisted : e ∉ store.idle := by
      intro inside
      obtain ⟨record, present, -⟩ := wf.listed e inside
      simp [found] at present
    simpa [idleRemove, found] using skipped unlisted
  | some entry =>
    by_cases flagged : entry.inIdle
    · rw [idleRemove_idle found flagged, wf.once.mem_erase_iff]
    · have unlisted : e ∉ store.idle := by
        intro inside
        obtain ⟨record, present, raised⟩ := wf.listed e inside
        cases found.symm.trans present
        exact flagged raised
      rw [idleRemove_unlisted found (by simpa using flagged)]
      exact skipped unlisted

/-- An entry that was checked out is not listed. -/
theorem not_mem_checkout (wf : store.WellFormed) (e : EntryId) : e ∉ (store.checkout e).idle := by
  -- The first reference unlists the entry, and an entry held already was never listed.
  intro inside
  obtain ⟨entry, found, -⟩ := wf.listed e (checkout_sublist.subset inside)
  by_cases unheld : entry.refCount = 0
  · rw [(checkout_first found unheld).1, wf.mem_idleRemove] at inside
    exact inside.1 rfl
  · rw [(checkout_further found (Nat.pos_of_ne_zero unheld)).1] at inside
    exact unheld (wf.unheld_of_listed inside found)

/-- Unlisting an entry keeps the others listed once. -/
theorem nodup_idleRemove (wf : store.WellFormed) : (store.idleRemove e).idle.Nodup := by
  -- Erasing from a list without duplicates leaves none.
  unfold idleRemove
  split
  · exact wf.once
  · split
    · exact wf.once.erase e
    · exact wf.once

/--
The rule for operations that reassign one entry and bind nothing.

Only what is still bound to the reassigned entry has to be checked, and only its own record.
-/
theorem reassign (wf : store.WellFormed) (assign : Entry κ τ → Entry κ τ)
    (heap : next.heap = store.heap.modify e assign)
    (live : ∀ key other, next.entries.get? key = some other →
      store.entries.get? key = some other ∧ (other = e → ∀ entry, store.heap[e]? = some entry →
        entry.Live key → (assign entry).Live key))
    (orphaned : ∀ key other, next.orphans.get? key = some other →
      store.orphans.get? key = some other ∧ (other = e → ∀ entry, store.heap[e]? = some entry →
        entry.Orphaned key → (assign entry).Orphaned key))
    (listed : ∀ other ∈ next.idle, (other ≠ e ∧ other ∈ store.idle) ∨
      (other = e ∧ ∃ entry, store.heap[e]? = some entry ∧ (assign entry).inIdle = true))
    (sound : ∀ entry, store.heap[e]? = some entry → entry.Sound → (assign entry).Sound)
    (once : next.idle.Nodup) : next.WellFormed := by
  -- A record read after the operation is the reassigned one or was there before.
  have kept {other : EntryId} {record : Entry κ τ} (present : store.heap[other]? = some record)
      (differ : e ≠ other) : next.heap[other]? = some record := by
    rw [heap, Arena.getElem?_modify_other _ _ differ, present]
  have assigned {record : Entry κ τ} (present : store.heap[e]? = some record) :
      next.heap[e]? = some (assign record) := by
    rw [heap]
    exact Arena.getElem?_modify_self _ present
  -- The promises of the entry are carried over by the hypotheses, those of the others unread.
  constructor
  case live =>
    intro key other bound
    obtain ⟨before, touched⟩ := live key other bound
    obtain ⟨record, present, promised⟩ := wf.live key other before
    by_cases same : e = other
    · subst same
      exact ⟨_, assigned present, touched rfl record present promised⟩
    · exact ⟨record, kept present same, promised⟩
  case orphaned =>
    intro key other bound
    obtain ⟨before, touched⟩ := orphaned key other bound
    obtain ⟨record, present, promised⟩ := wf.orphaned key other before
    by_cases same : e = other
    · subst same
      exact ⟨_, assigned present, touched rfl record present promised⟩
    · exact ⟨record, kept present same, promised⟩
  case apart =>
    intro key other bound
    cases orphan : next.orphans.get? key with
    | none => rfl
    | some third =>
      have absent := wf.apart key other (live key other bound).1
      simp [(orphaned key third orphan).1] at absent
  case listed =>
    intro other inside
    rcases listed other inside with ⟨differ, before⟩ | ⟨rfl, record, present, raised⟩
    · obtain ⟨record, present, raised⟩ := wf.listed other before
      exact ⟨record, kept present (Ne.symm differ), raised⟩
    · exact ⟨_, assigned present, raised⟩
  case sound =>
    intro other record present
    rw [heap] at present
    rcases Arena.getElem?_modify_cases present with ⟨rfl, old, before, rfl⟩ | ⟨-, before⟩
    · exact sound old before (wf.sound _ old before)
    · exact wf.sound other record before
  case once => exact once

/-- Assigning fields that keep every promise of an entry keeps the store well formed. -/
theorem update (wf : store.WellFormed) (assign : Entry κ τ → Entry κ τ)
    (live : ∀ key, store.entries.get? key = some e → ∀ entry, store.heap[e]? = some entry →
      entry.Live key → (assign entry).Live key)
    (orphaned : ∀ key, store.orphans.get? key = some e → ∀ entry, store.heap[e]? = some entry →
      entry.Orphaned key → (assign entry).Orphaned key)
    (sound : ∀ entry, store.heap[e]? = some entry → entry.Sound → (assign entry).Sound)
    (flag : ∀ entry, (assign entry).inIdle = entry.inIdle) :
    (store.update e assign).WellFormed := by
  -- No binding changes, so the promises of the entry are all there is to show.
  refine wf.reassign assign rfl (fun key other bound => ⟨bound, ?_⟩)
    (fun key other bound => ⟨bound, ?_⟩) (fun other inside => ?_) sound wf.once
  · rintro rfl
    exact live key bound
  · rintro rfl
    exact orphaned key bound
  · by_cases same : other = e
    · subst same
      obtain ⟨record, present, raised⟩ := wf.listed other inside
      exact .inr ⟨rfl, record, present, by rw [flag, raised]⟩
    · exact .inl ⟨same, inside⟩

/-- Taking a reference keeps the store well formed. -/
theorem checkout (wf : store.WellFormed) (found : store.heap[e]? = some entry) :
    (store.checkout e).WellFormed := by
  -- A reference more keeps every promise, and the entry leaves the idle list with the first one.
  refine wf.reassign _ (checkout_heap store e) (fun key other bound => ?_)
    (fun key other bound => ?_) (fun other inside => ?_) (fun record _ sound => ?_) ?_
  · rw [checkout_entries] at bound
    exact ⟨bound, fun _ _ _ promised => ⟨promised.key, promised.undisposed, by simp⟩⟩
  · rw [checkout_orphans] at bound
    exact ⟨bound, fun _ _ _ promised =>
      ⟨promised.key, promised.undisposed, promised.condemned, by simp⟩⟩
  · by_cases unheld : entry.refCount = 0
    · rw [(checkout_first found unheld).1, wf.mem_idleRemove] at inside
      exact .inl inside
    · rw [(checkout_further found (by omega)).1] at inside
      refine .inl ⟨?_, inside⟩
      rintro rfl
      exact unheld (wf.unheld_of_listed inside found)
  -- The flag stays up only where it was up on a held entry, which cannot be.
  · refine ⟨fun raised => ?_, sound.ended⟩
    by_cases unheld : record.refCount = 0
    · simp [unheld] at raised
    · simp only [unheld, if_false] at raised
      exact absurd (sound.flagged raised) unheld
  · by_cases unheld : entry.refCount = 0
    · rw [(checkout_first found unheld).1]
      exact wf.nodup_idleRemove
    · rw [(checkout_further found (by omega)).1]
      exact wf.once

/-- Dropping one of several references keeps the store well formed. -/
theorem drop (wf : store.WellFormed) (found : store.heap[e]? = some entry)
    (shared : 1 < entry.refCount) :
    (store.update e fun entry => { entry with refCount := entry.refCount - 1 }).WellFormed := by
  -- With more than one reference the entry stays held, which is all the maps ask of the count.
  refine wf.update _ (fun key _ record present promised => ?_)
    (fun key _ record present promised => ?_) (fun record present sound => ?_) (fun _ => rfl) <;>
    cases found.symm.trans present
  · exact ⟨promised.key, promised.undisposed, fun _ => by dsimp only; omega⟩
  · exact ⟨promised.key, promised.undisposed, promised.condemned, by dsimp only; omega⟩
  · exact ⟨fun raised => by have := sound.flagged raised; dsimp only; omega, sound.ended⟩

/-- Starting the disposal of an entry that neither map binds keeps the store well formed. -/
theorem beginDispose (wf : store.WellFormed)
    (unbound : ∀ key, store.entries.get? key ≠ some e)
    (released : ∀ key, store.orphans.get? key ≠ some e) : (store.beginDispose e).WellFormed := by
  -- An entry in neither map owes nothing to them, so it may be marked as disposing.
  refine wf.reassign _ (beginDispose_heap store e) (fun key other bound => ?_)
    (fun key other bound => ?_) (fun other inside => ?_) (fun record _ sound => ?_)
    (by simpa using wf.once)
  · rw [beginDispose_entries] at bound
    exact ⟨bound, fun same => absurd (same ▸ bound) (unbound key)⟩
  · rw [beginDispose_orphans] at bound
    exact ⟨bound, fun same => absurd (same ▸ bound) (released key)⟩
  · rw [beginDispose_idle] at inside
    by_cases same : other = e
    · subst same
      exact .inr ⟨rfl, wf.listed other inside⟩
    · exact .inl ⟨same, inside⟩
  · refine ⟨sound.flagged, fun ended => ?_⟩
    simp [sound.ended ended]

/-- Unlinking a listed entry keeps the store well formed. -/
theorem unlink (wf : store.WellFormed) (found : store.heap[e]? = some entry) :
    (store.unlink e).WellFormed := by
  -- The flag goes down as the entry leaves the list, and its key leaves the live map.
  refine wf.reassign _ (unlink_heap store e) (fun key other bound => ?_)
    (fun key other bound => ?_) (fun other inside => ?_)
    (fun record _ sound => ⟨by simp, sound.ended⟩) (by simpa using wf.nodup_idleRemove)
  · rw [unlink_entries found] at bound
    exact ⟨(OrderedMap.get?_of_delete bound).2, fun _ _ _ promised =>
      ⟨promised.key, promised.undisposed, promised.held⟩⟩
  · rw [unlink_orphans] at bound
    exact ⟨bound, fun _ _ _ promised =>
      ⟨promised.key, promised.undisposed, promised.condemned, promised.held⟩⟩
  · rw [unlink_idle, wf.mem_idleRemove] at inside
    exact .inl inside

/-- An unlinked entry is live under no key. -/
theorem unlink_unbound (wf : store.WellFormed) (found : store.heap[e]? = some entry) (key : κ) :
    (store.unlink e).entries.get? key ≠ some e := by
  -- The deleted key is the only one that the entry could be bound to.
  intro bound
  rw [unlink_entries found] at bound
  obtain ⟨differ, before⟩ := OrderedMap.get?_of_delete bound
  exact differ (wf.live_at before found).key.symm

/-- An entry nobody holds is no orphan. -/
theorem not_orphan_of_unheld (wf : store.WellFormed) (found : store.heap[e]? = some entry)
    (unheld : entry.refCount = 0) (key : κ) : store.orphans.get? key ≠ some e := by
  -- The orphan map promises a holder.
  intro bound
  have held := (wf.orphaned_at bound found).held
  omega

/-- Evicting an entry nobody holds keeps the store well formed. -/
theorem evict (wf : store.WellFormed) (found : store.heap[e]? = some entry)
    (unheld : entry.refCount = 0) : ((store.unlink e).beginDispose e).WellFormed := by
  -- After the unlinking neither map binds the entry, so its disposal may start.
  refine (wf.unlink found).beginDispose (wf.unlink_unbound found) fun key => ?_
  rw [unlink_orphans]
  exact wf.not_orphan_of_unheld found unheld key

/-- Removing an entry and starting its disposal keeps the store well formed. -/
theorem retire (wf : store.WellFormed) (found : store.heap[e]? = some entry)
    (assign : Entry κ τ → Entry κ τ) (key : (assign entry).key = entry.key)
    (flag : ∀ record, (assign record).inIdle = record.inIdle)
    (ended : (assign entry).disposed = true → (assign entry).disposing = true) :
    (((store.update e assign).removeEntry e).beginDispose e).WellFormed := by
  have assigned : (store.update e assign).heap[e]? = some (assign entry) :=
    Arena.getElem?_modify_self assign found
  -- Neither map binds the entry afterwards, so no promise about it is left to keep.
  refine wf.reassign _ (retire_heap store e assign)
    (fun other third bound => ?_) (fun other third bound => ?_) (fun other inside => ?_)
    (fun record present sound => ⟨by simp, fun final => ?_⟩) ?_
  · rw [discard_entries _ _ assigned, key,
      OrderedMap.get?_deleteBinding_eq_some, update_entries] at bound
    refine ⟨bound.1, ?_⟩
    rintro rfl record present promised
    cases found.symm.trans present
    exact absurd ⟨promised.key.symm, rfl⟩ bound.2
  · rw [beginDispose_orphans, removeEntry_orphans assigned, key,
      OrderedMap.get?_deleteBinding_eq_some, update_orphans] at bound
    refine ⟨bound.1, ?_⟩
    rintro rfl record present promised
    cases found.symm.trans present
    exact absurd ⟨promised.key.symm, rfl⟩ bound.2
  · rw [beginDispose_idle, removeEntry_idle, (idleRemove_update flag).1,
      wf.mem_idleRemove] at inside
    exact .inl inside
  · cases found.symm.trans present
    simp [ended final]
  · rw [beginDispose_idle, removeEntry_idle, (idleRemove_update flag).1]
    exact wf.nodup_idleRemove

/-- Removing and disposing of an entry keeps the store well formed. -/
theorem discard (wf : store.WellFormed) (found : store.heap[e]? = some entry) :
    ((store.removeEntry e).beginDispose e).WellFormed := by
  -- It is the last release of an entry whose fields nobody reassigns.
  rw [← update_id store e]
  exact wf.retire found id rfl (fun _ => rfl) (wf.sound e entry found).ended

/-- Listing an entry whose last reference is gone keeps the store well formed. -/
theorem free (wf : store.WellFormed) (found : store.heap[e]? = some entry)
    (assign : Entry κ τ → Entry κ τ) (key : (assign entry).key = entry.key)
    (disposing : (assign entry).disposing = entry.disposing)
    (disposed : (assign entry).disposed = entry.disposed)
    (unheld : (assign entry).refCount = 0) (kept : (assign entry).condemned = false)
    (uncondemned : entry.condemned = false)
    (flag : ∀ record, (assign record).inIdle = record.inIdle) :
    ((store.update e assign).idleAppend e).WellFormed := by
  -- The flag may go up because the count has come down to zero.
  refine wf.reassign _ (free_heap store e assign)
    (fun other third bound => ?_) (fun other third bound => ?_) (fun other inside => ?_)
    (fun record present sound => ?_) ?_
  · rw [idleAppend_entries, update_entries] at bound
    refine ⟨bound, ?_⟩
    rintro rfl record present promised
    cases found.symm.trans present
    exact ⟨key.trans promised.key, disposing.trans promised.undisposed, by simp [kept]⟩
  -- An orphan is condemned and would have been disposed of instead.
  · rw [idleAppend_orphans, update_orphans] at bound
    refine ⟨bound, ?_⟩
    rintro rfl record present promised
    cases found.symm.trans present
    simp [promised.condemned] at uncondemned
  · by_cases same : other = e
    · exact .inr ⟨same, entry, found, rfl⟩
    · exact .inl ⟨same, (mem_of_mem_idleAppend inside).resolve_right same⟩
  · cases found.symm.trans present
    refine ⟨fun _ => unheld, fun final => ?_⟩
    dsimp only at final ⊢
    rw [disposing]
    exact sound.ended (disposed ▸ final)
  · refine nodup_idleAppend wf.once fun record present inside => ?_
    obtain ⟨old, before, raised⟩ := wf.listed e inside
    cases (Arena.getElem?_modify_self assign before).symm.trans present
    rw [flag, raised]

/-- Inserting an idle entry under an unbound key keeps the store well formed. -/
theorem insert (wf : store.WellFormed) {key : κ} (resource : τ) (now : Int)
    (absent : store.orphans.get? key = none) : (store.insert key resource now).WellFormed := by
  -- The entry is allocated and bound first, and listed last.
  let fresh : Entry κ τ :=
    { key, resource, refCount := 0, lastReleasedAt := now, condemned := false,
      disposed := false, disposing := false, disposeWaiters := [], inIdle := false }
  have allocated : Store.WellFormed { store with
      heap := store.heap ++ [fresh], entries := store.entries.set key store.heap.length } := by
    constructor
    -- The fresh entry is bound to the new key, and the older bindings are as they were.
    case live =>
      intro other e bound
      rw [OrderedMap.get?_set] at bound
      split at bound
      · rename_i same
        cases bound
        exact ⟨fresh, by simp, same.symm, rfl, by simp [fresh]⟩
      · obtain ⟨record, present, promised⟩ := wf.live other e bound
        exact ⟨record, Arena.getElem?_push_of_some _ present, promised⟩
    case orphaned =>
      intro other e bound
      obtain ⟨record, present, promised⟩ := wf.orphaned other e bound
      exact ⟨record, Arena.getElem?_push_of_some _ present, promised⟩
    -- The key was no orphan, which the caller has looked up.
    case apart =>
      intro other e bound
      rw [OrderedMap.get?_set] at bound
      split at bound
      · rename_i same
        exact same ▸ absent
      · exact wf.apart other e bound
    case listed =>
      intro e inside
      obtain ⟨record, present, raised⟩ := wf.listed e inside
      exact ⟨record, Arena.getElem?_push_of_some _ present, raised⟩
    case sound =>
      intro e record present
      rcases Arena.getElem?_push_cases present with ⟨-, rfl⟩ | before
      · exact ⟨by simp [fresh], by simp [fresh]⟩
      · exact wf.sound e record before
    case once => exact wf.once
  -- Listing it is what a last release does, with nothing reassigned.
  have present : (store.heap ++ [fresh])[store.heap.length]? = some fresh := by simp
  have listed := allocated.free present id
    rfl rfl rfl rfl rfl rfl fun _ => rfl
  rw [update_id] at listed
  exact listed

/-- Moving an orphan back to the live map keeps the store well formed. -/
theorem resurrect (wf : store.WellFormed) {key : κ} (bound : store.orphans.get? key = some e) :
    (store.resurrect key e).WellFormed where
  -- What an orphan promises covers what the live map asks.
  live := by
    intro other third live
    simp only [Store.resurrect] at live ⊢
    rw [OrderedMap.get?_set] at live
    split at live
    · rename_i same
      cases live
      obtain ⟨record, present, promised⟩ := wf.orphaned key e bound
      exact ⟨record, present, same ▸ promised.key, promised.undisposed, fun _ => promised.held⟩
    · exact wf.live other third live
  orphaned := fun other third orphan =>
    wf.orphaned other third (OrderedMap.get?_of_delete orphan).2
  apart := by
    intro other third live
    simp only [Store.resurrect] at live ⊢
    rw [OrderedMap.get?_set] at live
    split at live
    · rename_i same
      rw [same, OrderedMap.get?_delete_self]
    · exact OrderedMap.get?_delete_eq_none (wf.apart other third live)
  listed := wf.listed
  sound := wf.sound
  once := wf.once

/-- Orphaning a held live entry keeps the store well formed. -/
theorem orphan (wf : store.WellFormed) (found : store.heap[e]? = some entry)
    (bound : store.entries.get? entry.key = some e) (held : 0 < entry.refCount) :
    ((store.deleteKey e).orphan entry.key e).WellFormed := by
  have promised := wf.live_at bound found
  -- The entry moves from one map to the other, so its key is absent from the live map.
  have condemning {other : EntryId} {record : Entry κ τ}
      (present : store.heap[other]? = some record) (differ : other ≠ e) :
      ((store.deleteKey e).orphan entry.key e).heap[other]? = some record := by
    simp [Store.orphan, Ne.symm differ, present]
  have condemned : ((store.deleteKey e).orphan entry.key e).heap[e]? =
      some { entry with condemned := true } := by
    simp [Store.orphan, found]
  have liveKeys : ((store.deleteKey e).orphan entry.key e).entries =
      store.entries.delete entry.key := by
    simp [Store.orphan, deleteKey_entries found]
  have orphanKeys : ((store.deleteKey e).orphan entry.key e).orphans =
      store.orphans.set entry.key e := by
    simp [Store.orphan]
  -- Each clause tells the moved entry apart from the others.
  constructor
  case live =>
    intro other third live
    rw [liveKeys] at live
    obtain ⟨differ, before⟩ := OrderedMap.get?_of_delete live
    obtain ⟨record, present, kept⟩ := wf.live other third before
    refine ⟨record, condemning present ?_, kept⟩
    rintro rfl
    exact differ (wf.live_at before found).key.symm
  case orphaned =>
    intro other third orphan
    rw [orphanKeys, OrderedMap.get?_set] at orphan
    split at orphan
    · rename_i same
      cases orphan
      exact ⟨_, condemned, same.symm, promised.undisposed, rfl, held⟩
    · obtain ⟨record, present, kept⟩ := wf.orphaned other third orphan
      refine ⟨record, condemning present ?_, kept⟩
      rintro rfl
      -- The key was live, so it cannot have been orphaned before.
      have absent := wf.apart _ _ bound
      rw [(wf.orphaned_at orphan found).key] at absent
      simp [absent] at orphan
  case apart =>
    intro other third live
    rw [liveKeys] at live
    obtain ⟨differ, before⟩ := OrderedMap.get?_of_delete live
    rw [orphanKeys, OrderedMap.get?_set, if_neg differ]
    exact wf.apart other third before
  case listed =>
    intro other inside
    simp only [Store.orphan, update_idle, deleteKey_idle] at inside
    obtain ⟨record, present, raised⟩ := wf.listed other inside
    by_cases same : other = e
    · subst same
      cases found.symm.trans present
      exact ⟨_, condemned, raised⟩
    · exact ⟨record, condemning present same, raised⟩
  case sound =>
    intro other record present
    by_cases same : other = e
    · subst same
      cases condemned.symm.trans present
      exact ⟨(wf.sound other entry found).flagged, (wf.sound other entry found).ended⟩
    · have before : store.heap[other]? = some record := by
        simpa [Store.orphan, Ne.symm same] using present
      exact wf.sound other record before
  case once => simpa [Store.orphan] using wf.once

/-- Condemning a held entry keeps the store well formed. -/
theorem condemn (wf : store.WellFormed) (found : store.heap[e]? = some entry)
    (held : 0 < entry.refCount) :
    (store.update e fun entry => { entry with condemned := true }).WellFormed := by
  -- The mark is allowed on a live entry exactly because the entry is held.
  refine wf.update _ (fun key _ record present promised => ?_)
    (fun key _ record present promised => ?_) (fun record _ sound => ⟨sound.flagged, sound.ended⟩)
    (fun _ => rfl)
  · cases found.symm.trans present
    exact ⟨promised.key, promised.undisposed, fun _ => held⟩
  · exact ⟨promised.key, promised.undisposed, rfl, promised.held⟩

/-- The waiters of an entry are no part of the shape. -/
theorem setWaiters (wf : store.WellFormed) (waiters : Entry κ τ → List DisposalWaitId) :
    (store.update e fun entry => { entry with disposeWaiters := waiters entry }).WellFormed :=
  -- No clause reads the waiters.
  wf.update _ (fun _ _ _ _ promised => ⟨promised.key, promised.undisposed, promised.held⟩)
    (fun _ _ _ _ promised =>
      ⟨promised.key, promised.undisposed, promised.condemned, promised.held⟩)
    (fun _ _ sound => ⟨sound.flagged, sound.ended⟩) fun _ => rfl

/-- Ending a disposal that was started keeps the store well formed. -/
theorem finish (wf : store.WellFormed) (found : store.heap[e]? = some entry)
    (started : entry.disposing = true) :
    (store.update e fun entry => { entry with disposed := true }).WellFormed := by
  -- The end of a disposal is promised to come after its start.
  refine wf.update _ (fun _ _ _ _ promised => ⟨promised.key, promised.undisposed, promised.held⟩)
    (fun _ _ _ _ promised =>
      ⟨promised.key, promised.undisposed, promised.condemned, promised.held⟩)
    (fun record present sound => ⟨sound.flagged, fun _ => ?_⟩) fun _ => rfl
  cases found.symm.trans present
  exact started

/-- Forgetting the idle list keeps the store well formed. -/
theorem resetIdle (wf : store.WellFormed) : store.resetIdle.WellFormed where
  -- Flags that stay up on unlisted entries break no promise.
  live := wf.live
  orphaned := wf.orphaned
  apart := wf.apart
  listed := by simp [Store.resetIdle]
  sound := wf.sound
  once := by simp [Store.resetIdle]

end WellFormed

end Store

end RefPool
