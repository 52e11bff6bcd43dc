import RefPool.Proofs.WellFormed

/-! What an operation on one entry leaves alone in the store. -/

namespace RefPool.Store

variable {κ τ : Type} [DecidableEq κ]

/-- What an operation on one entry leaves alone. -/
structure OnlyEntry (e : EntryId) (store next : Store κ τ) : Prop where
  /-- Every other entry object. -/
  heap : ∀ other, other ≠ e → next.heap[other]? = store.heap[other]?
  /-- Every binding of a key to another entry, whatever the key. -/
  entries : ∀ key other, other ≠ e →
    (next.entries.get? key = some other ↔ store.entries.get? key = some other)
  orphans : ∀ key other, other ≠ e →
    (next.orphans.get? key = some other ↔ store.orphans.get? key = some other)
  /-- The other entries on the idle list, in their order. -/
  idle : next.idle.filter (· ≠ e) = store.idle.filter (· ≠ e)

section IdleList

variable (store : Store κ τ) (e : EntryId)

omit [DecidableEq κ] in
/-- Unlisting an entry keeps the others in order. -/
theorem idleRemove_filter :
    (store.idleRemove e).idle.filter (· ≠ e) = store.idle.filter (· ≠ e) := by
  -- What is unlinked is what the filter leaves out.
  unfold idleRemove
  split
  · rfl
  · split
    · rw [← List.erase_filter, List.erase_of_not_mem (by simp)]
    · rfl

omit [DecidableEq κ] in
/-- Listing an entry keeps the others in order. -/
theorem idleAppend_filter :
    (store.idleAppend e).idle.filter (· ≠ e) = store.idle.filter (· ≠ e) := by
  -- What is appended is what the filter leaves out.
  unfold idleAppend
  split
  · rfl
  · split
    · rfl
    · simp

end IdleList

namespace OnlyEntry

variable {store next : Store κ τ} {e : EntryId} {entry : Entry κ τ}

/-- Other entries stay listed or unlisted. -/
theorem mem_idle (only : OnlyEntry e store next) {other : EntryId} (differ : other ≠ e) :
    other ∈ next.idle ↔ other ∈ store.idle := by
  -- The filter keeps every entry other than the one touched.
  have same : other ∈ next.idle.filter (· ≠ e) ↔ other ∈ store.idle.filter (· ≠ e) := by
    rw [only.idle]
  simpa [differ] using same

/-- Doing nothing touches no entry. -/
theorem refl (e : EntryId) (store : Store κ τ) : OnlyEntry e store store :=
  -- Everything is what it was.
  ⟨fun _ _ => rfl, fun _ _ _ => .rfl, fun _ _ _ => .rfl, rfl⟩

/-- Two operations on one entry touch no other. -/
theorem trans {middle : Store κ τ} (first : OnlyEntry e store middle)
    (second : OnlyEntry e middle next) : OnlyEntry e store next where
  -- What the one operation leaves of another entry the other leaves as well.
  heap := fun other differ => (second.heap other differ).trans (first.heap other differ)
  entries := fun key other differ =>
    (second.entries key other differ).trans (first.entries key other differ)
  orphans := fun key other differ =>
    (second.orphans key other differ).trans (first.orphans key other differ)
  idle := second.idle.trans first.idle

/-- Assigning fields of an entry touches no other. -/
theorem update (store : Store κ τ) (e : EntryId) (assign : Entry κ τ → Entry κ τ) :
    OnlyEntry e store (store.update e assign) :=
  -- Only the record at the address changes.
  ⟨fun _ differ => Arena.getElem?_modify_other _ _ (Ne.symm differ), fun _ _ _ => .rfl,
    fun _ _ _ => .rfl, rfl⟩

/-- Listing an entry touches no other. -/
theorem idleAppend (store : Store κ τ) (e : EntryId) :
    OnlyEntry e store (store.idleAppend e) :=
  -- The entry is added to the list, from which it is then filtered out.
  ⟨fun _ differ => by simp [Ne.symm differ], fun _ _ _ => by simp, fun _ _ _ => by simp,
    idleAppend_filter store e⟩

/-- Unlisting an entry touches no other. -/
theorem idleRemove (store : Store κ τ) (e : EntryId) :
    OnlyEntry e store (store.idleRemove e) :=
  -- The entry is taken out of the list, from which it is then filtered out.
  ⟨fun _ differ => by simp [Ne.symm differ], fun _ _ _ => by simp, fun _ _ _ => by simp,
    idleRemove_filter store e⟩

/-- Starting the disposal of an entry touches no other. -/
theorem beginDispose (store : Store κ τ) (e : EntryId) :
    OnlyEntry e store (store.beginDispose e) :=
  -- Neither map is written, nor the list.
  ⟨fun _ differ => by simp [beginDispose_heap, Ne.symm differ], fun _ _ _ => by simp,
    fun _ _ _ => by simp, by simp⟩

/-- Taking a reference touches no other entry. -/
theorem checkout (store : Store κ τ) (e : EntryId) : OnlyEntry e store (store.checkout e) := by
  -- The count is raised, and the first reference also takes the entry off the list.
  unfold Store.checkout
  split
  · exact .refl e store
  · dsimp only
    split
    · exact (idleRemove store e).trans (.update _ e _)
    · exact .update store e _

/-- Removing an entry touches no other. -/
theorem removeEntry (store : Store κ τ) (e : EntryId) :
    OnlyEntry e store (store.removeEntry e) := by
  -- Either map loses a binding of its key only where the binding is to the entry itself.
  refine ⟨fun other differ => by simp [Ne.symm differ], fun key other differ => ?_,
    fun key other differ => ?_, by rw [removeEntry_idle, idleRemove_filter]⟩ <;>
    cases found : store.heap[e]? with
    | none => simp [Store.removeEntry, Store.idleRemove, found]
    | some entry =>
      simp [removeEntry_entries found, removeEntry_orphans found,
        OrderedMap.get?_deleteBinding_eq_some, differ]

/-- Removing an entry and starting its disposal touches no other. -/
theorem retire (store : Store κ τ) (e : EntryId) (assign : Entry κ τ → Entry κ τ) :
    OnlyEntry e store (((store.update e assign).removeEntry e).beginDispose e) :=
  -- Three operations on the same entry.
  ((update store e assign).trans (removeEntry _ e)).trans (beginDispose _ e)

/-- Listing an entry whose last reference is gone touches no other. -/
theorem free (store : Store κ τ) (e : EntryId) (assign : Entry κ τ → Entry κ τ) :
    OnlyEntry e store ((store.update e assign).idleAppend e) :=
  -- Two operations on the same entry.
  (update store e assign).trans (idleAppend _ e)

/-- Discarding an entry touches no other. -/
theorem discard (store : Store κ τ) (e : EntryId) :
    OnlyEntry e store ((store.removeEntry e).beginDispose e) :=
  -- Two operations on the same entry.
  (removeEntry store e).trans (beginDispose _ e)

/-- Deleting the key of a live entry touches no other. -/
theorem deleteKey (found : store.heap[e]? = some entry)
    (bound : store.entries.get? entry.key = some e) : OnlyEntry e store (store.deleteKey e) := by
  -- The deletion goes by the key, which is bound to the entry and to no other.
  refine ⟨fun _ _ => by simp, fun key other differ => ?_, fun _ _ _ => by simp, by simp⟩
  rw [deleteKey_entries found, OrderedMap.get?_delete]
  split
  · rename_i same
    simp [same, bound, Ne.symm differ]
  · rfl

/-- Evicting a live entry touches no other. -/
theorem evict (found : store.heap[e]? = some entry)
    (bound : store.entries.get? entry.key = some e) :
    OnlyEntry e store ((store.unlink e).beginDispose e) := by
  -- Unlisting keeps the key of the entry, so the deletion finds the same binding.
  exact ((idleRemove store e).trans
    (deleteKey (idleRemove_found found) (by simpa using bound))).trans (beginDispose _ e)

/-- Binding an absent key to an entry touches no other. -/
theorem get?_set {map : OrderedMap κ EntryId} {key : κ} (absent : map.get? key = none)
    (other : κ) {third : EntryId} (differ : third ≠ e) :
    (map.set key e).get? other = some third ↔ map.get? other = some third := by
  -- The key was bound to nothing, so no binding to another entry is lost.
  rw [OrderedMap.get?_set]
  split
  · rename_i same
    simp [same, absent, Ne.symm differ]
  · rfl

/-- Unbinding the key of an entry touches no other. -/
theorem get?_delete {map : OrderedMap κ EntryId} {key : κ} (bound : map.get? key = some e)
    (other : κ) {third : EntryId} (differ : third ≠ e) :
    (map.delete key).get? other = some third ↔ map.get? other = some third := by
  -- The key was bound to the entry, so no binding to another one is lost.
  rw [OrderedMap.get?_delete]
  split
  · rename_i same
    simp [same, bound, Ne.symm differ]
  · rfl

/-- Resurrecting an orphan touches no other entry. -/
theorem resurrect {key : κ} (absent : store.entries.get? key = none)
    (bound : store.orphans.get? key = some e) : OnlyEntry e store (store.resurrect key e) :=
  -- The entry is bound in both maps under its own key.
  ⟨fun _ _ => rfl, fun other _ differ => get?_set absent other differ,
    fun other _ differ => get?_delete bound other differ, rfl⟩

/-- Orphaning a live entry touches no other. -/
theorem orphan (found : store.heap[e]? = some entry)
    (bound : store.entries.get? entry.key = some e)
    (absent : store.orphans.get? entry.key = none) :
    OnlyEntry e store ((store.deleteKey e).orphan entry.key e) := by
  -- The live map loses the key, the orphans gain it, and the entry is marked.
  refine (deleteKey found bound).trans ⟨fun other differ => ?_, fun _ _ _ => .rfl,
    fun other third differ => ?_, rfl⟩
  · exact Arena.getElem?_modify_other _ _ (Ne.symm differ)
  · simp only [Store.orphan]
    exact get?_set (by simpa using absent) other differ

/-- Inserting an entry touches no other. -/
theorem insert (store : Store κ τ) {key : κ} (resource : τ) (now : Int)
    (absent : store.entries.get? key = none) :
    OnlyEntry store.heap.length store (store.insert key resource now) := by
  -- The fresh entry is at an address that nothing was bound to, and is then listed.
  refine OnlyEntry.trans ?_ (idleAppend _ store.heap.length)
  refine ⟨fun other differ => ?_, fun other third differ => ?_, fun _ _ _ => .rfl, rfl⟩
  · rw [Arena.getElem?_push, if_neg differ]
  · exact get?_set absent other differ

end OnlyEntry

end RefPool.Store
