import RefPool.Model.Store
import RefPool.Lib.Arena

/-! What each store operation does to the heap, the two maps and the idle list. -/

namespace RefPool.Store

variable {κ τ : Type} {store : Store κ τ} {e : EntryId}

section Update

variable (store e) (assign : Entry κ τ → Entry κ τ)

@[simp] theorem update_heap : (store.update e assign).heap = store.heap.modify e assign := rfl

@[simp] theorem update_entries : (store.update e assign).entries = store.entries := rfl

@[simp] theorem update_orphans : (store.update e assign).orphans = store.orphans := rfl

@[simp] theorem update_idle : (store.update e assign).idle = store.idle := rfl

@[simp] theorem update_idleCount : (store.update e assign).idleCount = store.idleCount := rfl

end Update

/-- Assigning an entry twice is assigning it once. -/
theorem update_update (first second : Entry κ τ → Entry κ τ) :
    (store.update e first).update e second = store.update e (second ∘ first) := by
  -- Two rewrites of one record compose.
  simp [update, List.modify_modify_eq]

@[simp] theorem update_id (store : Store κ τ) (e : EntryId) : store.update e id = store := by
  -- An update that changes nothing is none.
  simp [update]

section IdleList

variable (store e)

/-- Listing an entry raises its flag. -/
@[simp] theorem idleAppend_heap :
    (store.idleAppend e).heap = store.heap.modify e fun entry => { entry with inIdle := true } := by
  -- Where the flag is already up the record is rewritten to itself.
  unfold idleAppend
  cases found : store.heap[e]? with
  | none => exact (List.modify_eq_self (by simpa using found)).symm
  | some entry =>
    by_cases listed : entry.inIdle
    · simp only [listed, if_true]
      refine (Arena.modify_of_fixed fun record same => ?_).symm
      cases found.symm.trans same
      simp only [← listed]
    · simp [listed]

@[simp] theorem idleAppend_entries : (store.idleAppend e).entries = store.entries := by
  -- No branch writes to that map.
  unfold idleAppend
  split <;> [rfl; (split <;> rfl)]

@[simp] theorem idleAppend_orphans : (store.idleAppend e).orphans = store.orphans := by
  -- No branch writes to that map.
  unfold idleAppend
  split <;> [rfl; (split <;> rfl)]

/-- Unlisting an entry lowers its flag. -/
@[simp] theorem idleRemove_heap :
    (store.idleRemove e).heap =
      store.heap.modify e fun entry => { entry with inIdle := false } := by
  -- Where the flag is already down the record is rewritten to itself.
  unfold idleRemove
  cases found : store.heap[e]? with
  | none => exact (List.modify_eq_self (by simpa using found)).symm
  | some entry =>
    by_cases listed : entry.inIdle
    · simp [listed]
    · simp only [listed, Bool.false_eq_true, if_false]
      refine (Arena.modify_of_fixed fun record same => ?_).symm
      cases found.symm.trans same
      simp only [← Bool.eq_false_iff.mpr listed]

@[simp] theorem idleRemove_entries : (store.idleRemove e).entries = store.entries := by
  -- No branch writes to that map.
  unfold idleRemove
  split <;> [rfl; (split <;> rfl)]

@[simp] theorem idleRemove_orphans : (store.idleRemove e).orphans = store.orphans := by
  -- No branch writes to that map.
  unfold idleRemove
  split <;> [rfl; (split <;> rfl)]

end IdleList

/-- Listing an unlisted entry appends it. -/
theorem idleAppend_idle {entry : Entry κ τ} (found : store.heap[e]? = some entry)
    (unlisted : entry.inIdle = false) : (store.idleAppend e).idle = store.idle ++ [e] := by
  -- The entry is found, and its flag is down.
  simp [idleAppend, found, unlisted]

/-- Unlisting a listed entry takes it out. -/
theorem idleRemove_idle {entry : Entry κ τ} (found : store.heap[e]? = some entry)
    (listed : entry.inIdle = true) : (store.idleRemove e).idle = store.idle.erase e := by
  -- The entry is found, and its flag is up.
  simp [idleRemove, found, listed]

/-- An entry that is taken off the idle list is found with its flag lowered. -/
theorem idleRemove_found {entry : Entry κ τ} (found : store.heap[e]? = some entry) :
    (store.idleRemove e).heap[e]? = some { entry with inIdle := false } := by
  -- Unlisting rewrites the flag of the record and no more.
  rw [idleRemove_heap]
  exact Arena.getElem?_modify_self _ found

/-- Unlisting an unlisted entry changes nothing. -/
theorem idleRemove_unlisted {entry : Entry κ τ} (found : store.heap[e]? = some entry)
    (unlisted : entry.inIdle = false) : store.idleRemove e = store := by
  -- The entry is found, and its flag is down.
  simp [idleRemove, found, unlisted]

/-- Listing an entry adds at most one node, at the end. -/
theorem idleAppend_sublist : (store.idleAppend e).idle.Sublist (store.idle ++ [e]) := by
  -- The node is added, or the entry was listed or never allocated.
  unfold idleAppend
  split
  · exact List.sublist_append_left ..
  · split
    · exact List.sublist_append_left ..
    · exact .refl _

/-- Unlisting an entry adds no node. -/
theorem idleRemove_sublist : (store.idleRemove e).idle.Sublist store.idle := by
  -- The node is unlinked, or the entry was not listed or never allocated.
  unfold idleRemove
  split
  · exact .refl _
  · split
    · exact List.erase_sublist
    · exact .refl _

/-- Listing an entry lists at most that entry more. -/
theorem mem_of_mem_idleAppend {other : EntryId} (inside : other ∈ (store.idleAppend e).idle) :
    other ∈ store.idle ∨ other = e := by
  -- The list is as it was or has the entry at its end.
  unfold idleAppend at inside
  split at inside
  · exact .inl inside
  · split at inside
    · exact .inl inside
    · simpa using inside

/-- Listing an entry lists nothing twice where the flag says what is listed. -/
theorem nodup_idleAppend (once : store.idle.Nodup)
    (flagged : ∀ entry, store.heap[e]? = some entry → e ∈ store.idle → entry.inIdle = true) :
    (store.idleAppend e).idle.Nodup := by
  unfold idleAppend
  split
  · exact once
  · rename_i entry found
    split
    · exact once
    -- An entry whose flag is down is not listed yet, so the new node is its only one.
    · rename_i unflagged
      rw [List.nodup_append]
      refine ⟨once, List.nodup_singleton e, ?_⟩
      rintro other inside _ last rfl
      obtain rfl := List.mem_singleton.mp last
      exact unflagged (flagged entry found inside)

/-- Assigning fields other than the flag does not change what unlisting unlinks. -/
theorem idleRemove_update {assign : Entry κ τ → Entry κ τ}
    (flag : ∀ entry, (assign entry).inIdle = entry.inIdle) :
    ((store.update e assign).idleRemove e).idle = (store.idleRemove e).idle ∧
      ((store.update e assign).idleRemove e).idleCount = (store.idleRemove e).idleCount := by
  -- Unlinking reads nothing but the flag.
  cases found : store.heap[e]? with
  | none => simp [idleRemove, found]
  | some entry =>
    cases listed : entry.inIdle <;> simp [idleRemove, found, flag, listed]

section Checkout

variable (store e)

/-- Taking a reference counts it, and unlists an entry nobody held. -/
@[simp] theorem checkout_heap :
    (store.checkout e).heap = store.heap.modify e fun entry =>
      { entry with
        refCount := entry.refCount + 1
        inIdle := if entry.refCount = 0 then false else entry.inIdle } := by
  -- The two rewrites of the source are told apart by the count they find.
  unfold checkout
  cases found : store.heap[e]? with
  | none => exact (List.modify_eq_self (by simpa using found)).symm
  | some entry =>
    apply List.ext_getElem?
    intro i
    by_cases same : e = i
    · subst same
      by_cases idle : entry.refCount = 0 <;> simp [found, idle]
    · by_cases idle : entry.refCount = 0 <;> simp [idle, same]

@[simp] theorem checkout_entries : (store.checkout e).entries = store.entries := by
  -- Whether the entry is unlisted or not, no map is written.
  unfold checkout
  split <;> [rfl; (dsimp only; split <;> simp)]

@[simp] theorem checkout_orphans : (store.checkout e).orphans = store.orphans := by
  -- Whether the entry is unlisted or not, no map is written.
  unfold checkout
  split <;> [rfl; (dsimp only; split <;> simp)]

end Checkout

/-- The first reference takes an entry off the idle list. -/
theorem checkout_first {entry : Entry κ τ} (found : store.heap[e]? = some entry)
    (unheld : entry.refCount = 0) :
    (store.checkout e).idle = (store.idleRemove e).idle ∧
      (store.checkout e).idleCount = (store.idleRemove e).idleCount := by
  -- The count was zero, which selects the branch.
  simp [checkout, found, unheld]

/-- A further reference leaves the idle list alone. -/
theorem checkout_further {entry : Entry κ τ} (found : store.heap[e]? = some entry)
    (held : 0 < entry.refCount) :
    (store.checkout e).idle = store.idle ∧ (store.checkout e).idleCount = store.idleCount := by
  -- Only a count of zero takes the entry off the list.
  have counted : entry.refCount ≠ 0 := by omega
  simp [checkout, found, counted]

/-- Taking a reference lists no node. -/
theorem checkout_sublist : (store.checkout e).idle.Sublist store.idle := by
  -- The list is as it was, or has lost the entry.
  unfold checkout
  split
  · exact .refl _
  · dsimp only
    split
    · exact idleRemove_sublist
    · exact .refl _

section Dispose

/-- A fresh entry is the one whose disposal starts. -/
theorem toDispose_fresh {entry : Entry κ τ} (found : store.heap[e]? = some entry)
    (undisposed : entry.disposed = false) (idle : entry.disposing = false) :
    store.toDispose e = some entry := by
  -- The entry is found, and passes the filter.
  simp [toDispose, found, undisposed, idle, Option.filter]

/-- No disposal starts where one has started or ended. -/
theorem toDispose_begun {entry : Entry κ τ} (found : store.heap[e]? = some entry)
    (begun : entry.disposed = true ∨ entry.disposing = true) : store.toDispose e = none := by
  -- The guard of `dispose` looks at both flags.
  rcases begun with begun | begun <;> simp [toDispose, found, begun, Option.filter]

variable (store e)

/-- Starting a disposal marks the entry unless it is disposed already. -/
theorem beginDispose_heap :
    (store.beginDispose e).heap = store.heap.modify e fun entry =>
      { entry with disposing := entry.disposing || !entry.disposed } := by
  -- A disposal that has begun rewrites the record to itself.
  unfold beginDispose
  cases found : store.heap[e]? with
  | none =>
    simp only [toDispose, found, Option.filter_none]
    exact (List.modify_eq_self (by simpa using found)).symm
  | some entry =>
    by_cases begun : entry.disposed = true ∨ entry.disposing = true
    · rw [toDispose_begun found begun]
      refine (Arena.modify_of_fixed fun record same => ?_).symm
      cases found.symm.trans same
      have unchanged : (entry.disposing || !entry.disposed) = entry.disposing := by
        cases ended : entry.disposed <;> simp_all
      simp only [unchanged]
    -- A disposal that begins raises the flag of the one entry.
    · simp only [not_or, Bool.not_eq_true] at begun
      rw [toDispose_fresh found begun.1 begun.2]
      apply List.ext_getElem?
      intro i
      by_cases same : e = i
      · subst same
        simp [found, begun]
      · simp [same]

/-- Starting a disposal leaves the entry with one that has begun. -/
theorem beginDispose_doomed {entry : Entry κ τ} (found : store.heap[e]? = some entry)
    (ended : entry.disposed = true → entry.disposing = true) :
    (store.beginDispose e).heap[e]? = some { entry with disposing := true } := by
  -- A disposal that ended had begun, so the flag is up whatever the entry was.
  rw [beginDispose_heap]
  have begun : (entry.disposing || !entry.disposed) = true := by
    cases final : entry.disposed with
    | false => simp
    | true => simp [ended final]
  simpa only [begun] using Arena.getElem?_modify_self
    (fun entry : Entry κ τ => { entry with disposing := entry.disposing || !entry.disposed }) found

@[simp] theorem beginDispose_entries : (store.beginDispose e).entries = store.entries := by
  -- Only the heap is written, if anything.
  unfold beginDispose
  split <;> rfl

@[simp] theorem beginDispose_orphans : (store.beginDispose e).orphans = store.orphans := by
  -- Only the heap is written, if anything.
  unfold beginDispose
  split <;> rfl

@[simp] theorem beginDispose_idle : (store.beginDispose e).idle = store.idle := by
  -- Only the heap is written, if anything.
  unfold beginDispose
  split <;> rfl

@[simp] theorem beginDispose_idleCount : (store.beginDispose e).idleCount = store.idleCount := by
  -- Only the heap is written, if anything.
  unfold beginDispose
  split <;> rfl

end Dispose

section Removal

variable [DecidableEq κ]

section Effects

variable (store e)

@[simp] theorem deleteKey_heap : (store.deleteKey e).heap = store.heap := by
  -- Only the live map is written, if anything.
  unfold deleteKey
  split <;> rfl

@[simp] theorem deleteKey_orphans : (store.deleteKey e).orphans = store.orphans := by
  -- Only the live map is written, if anything.
  unfold deleteKey
  split <;> rfl

@[simp] theorem deleteKey_idle : (store.deleteKey e).idle = store.idle := by
  -- Only the live map is written, if anything.
  unfold deleteKey
  split <;> rfl

@[simp] theorem deleteKey_idleCount : (store.deleteKey e).idleCount = store.idleCount := by
  -- Only the live map is written, if anything.
  unfold deleteKey
  split <;> rfl

@[simp] theorem unlink_heap :
    (store.unlink e).heap = store.heap.modify e fun entry => { entry with inIdle := false } := by
  -- Unlisting takes the flag down, and deleting the key writes to a map.
  simp [unlink]

/-- Unlinking only unlists the entry it finds. -/
theorem unlink_found {entry : Entry κ τ} (found : store.heap[e]? = some entry) :
    (store.unlink e).heap[e]? = some { entry with inIdle := false } := by
  -- The entry is read at the address where it was written.
  rw [unlink_heap]
  exact Arena.getElem?_modify_self _ found

@[simp] theorem unlink_orphans : (store.unlink e).orphans = store.orphans := by
  -- The live map is the only one written.
  simp [unlink]

@[simp] theorem unlink_idle : (store.unlink e).idle = (store.idleRemove e).idle := by
  -- The key is deleted from a map, not from the list.
  simp [unlink]

@[simp] theorem unlink_idleCount : (store.unlink e).idleCount = (store.idleRemove e).idleCount := by
  -- The key is deleted from a map, not from the list.
  simp [unlink]

@[simp] theorem removeEntry_heap :
    (store.removeEntry e).heap =
      store.heap.modify e fun entry => { entry with inIdle := false } := by
  -- Whether the key is still bound to the entry or not, its flag goes down.
  simp only [removeEntry]
  split <;> simp

/-- Removing only unlists the entry it finds. -/
theorem removeEntry_found {entry : Entry κ τ} (found : store.heap[e]? = some entry) :
    (store.removeEntry e).heap[e]? = some { entry with inIdle := false } := by
  -- The entry is read at the address where it was written.
  rw [removeEntry_heap]
  exact Arena.getElem?_modify_self _ found

@[simp] theorem removeEntry_idle : (store.removeEntry e).idle = (store.idleRemove e).idle := by
  -- Whether the key is deleted or not, the list is written once.
  simp only [removeEntry]
  split <;> rfl

@[simp] theorem removeEntry_idleCount :
    (store.removeEntry e).idleCount = (store.idleRemove e).idleCount := by
  -- Whether the key is deleted or not, the list is written once.
  simp only [removeEntry]
  split <;> rfl

end Effects

/-- Deleting the key of an entry. -/
theorem deleteKey_entries {entry : Entry κ τ} (found : store.heap[e]? = some entry) :
    (store.deleteKey e).entries = store.entries.delete entry.key := by
  -- The entry is found, and has the key.
  simp [deleteKey, found]

/-- Unlinking an entry deletes its key. -/
theorem unlink_entries {entry : Entry κ τ} (found : store.heap[e]? = some entry) :
    (store.unlink e).entries = store.entries.delete entry.key := by
  -- Unlisting leaves the key of the entry, and with it what is deleted, as it was.
  rw [unlink, deleteKey_entries (idleRemove_found found), idleRemove_entries]

/-- Removing an entry unbinds it, and nothing else, in the live map. -/
theorem removeEntry_entries {entry : Entry κ τ} (found : store.heap[e]? = some entry) :
    (store.removeEntry e).entries = store.entries.deleteBinding entry.key e := by
  -- The binding is read after the entry was unlisted, which keeps its key.
  simp only [removeEntry]
  rw [idleRemove_found found]
  simp

/-- Removing an entry unbinds it, and nothing else, among the orphans. -/
theorem removeEntry_orphans {entry : Entry κ τ} (found : store.heap[e]? = some entry) :
    (store.removeEntry e).orphans = store.orphans.deleteBinding entry.key e := by
  -- The second lookup goes by the same key.
  simp only [removeEntry]
  rw [idleRemove_found found]
  simp

section Compound

variable (store e)

/-- What eviction writes into an entry. -/
theorem evict_heap : ((store.unlink e).beginDispose e).heap = store.heap.modify e fun entry =>
    { entry with inIdle := false, disposing := entry.disposing || !entry.disposed } := by
  -- Unlinking and starting the disposal are two rewrites of the one record.
  simp [beginDispose_heap, List.modify_modify_eq, Function.comp_def]

/-- What eviction deletes from the live map. -/
theorem evict_entries {entry : Entry κ τ} (found : store.heap[e]? = some entry) :
    ((store.unlink e).beginDispose e).entries = store.entries.delete entry.key := by
  -- The disposal leaves the map as unlinking has it.
  rw [beginDispose_entries, unlink_entries found]

/-- What discarding deletes from the live map. -/
theorem discard_entries {entry : Entry κ τ} (found : store.heap[e]? = some entry) :
    ((store.removeEntry e).beginDispose e).entries =
      store.entries.deleteBinding entry.key e := by
  -- The disposal leaves the map as removing has it.
  rw [beginDispose_entries, removeEntry_entries found]

/-- What discarding writes into an entry. -/
theorem discard_heap : ((store.removeEntry e).beginDispose e).heap =
    store.heap.modify e fun entry =>
      { entry with inIdle := false, disposing := entry.disposing || !entry.disposed } := by
  -- As with eviction: which maps lose the key makes no difference to the record.
  simp [beginDispose_heap, List.modify_modify_eq, Function.comp_def]

/-- What the last release of a condemned entry writes into it. -/
theorem retire_heap (assign : Entry κ τ → Entry κ τ) :
    (((store.update e assign).removeEntry e).beginDispose e).heap =
      store.heap.modify e fun entry =>
        { assign entry with
          inIdle := false
          disposing := (assign entry).disposing || !(assign entry).disposed } := by
  -- Three rewrites of the one record compose.
  simp [beginDispose_heap, List.modify_modify_eq, Function.comp_def]

/-- What orphaning writes into an entry. -/
theorem orphan_heap (key : κ) : ((store.deleteKey e).orphan key e).heap =
    store.heap.modify e fun entry => { entry with condemned := true } := by
  -- The key moves between the maps, and the flag is written.
  simp [orphan]

omit [DecidableEq κ] in
/-- What the last release of another entry writes into it. -/
theorem free_heap (assign : Entry κ τ → Entry κ τ) :
    ((store.update e assign).idleAppend e).heap =
      store.heap.modify e fun entry => { assign entry with inIdle := true } := by
  -- The two updates of one record are one.
  simp [List.modify_modify_eq, Function.comp_def]

/-- Insertion allocates one entry. -/
theorem insert_heap (key : κ) (resource : τ) (now : Int) :
    (store.insert key resource now).heap = store.heap ++
      [{ key, resource, refCount := 0, lastReleasedAt := now, condemned := false,
         disposed := false, disposing := false, disposeWaiters := [], inIdle := true }] := by
  -- The listing that follows the allocation raises the flag of the fresh record.
  simp [insert, Arena.modify_push]

/-- The fresh entry is bound to its key. -/
theorem insert_bound (key : κ) (resource : τ) (now : Int) :
    (store.insert key resource now).entries.get? key = some store.heap.length := by
  -- The key was bound last.
  simp [insert]

/-- The fresh entry is the last one listed. -/
theorem insert_idle (key : κ) (resource : τ) (now : Int) :
    (store.insert key resource now).idle = store.idle ++ [store.heap.length] := by
  -- The fresh entry is not flagged, so that it is appended.
  simp [insert, idleAppend]

end Compound

end Removal

end RefPool.Store
