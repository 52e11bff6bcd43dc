import RefPool.Model.Links
import RefPool.Proofs.Marks

/-! The links through the entries spell the idle list, whatever the pool does. -/

namespace RefPool

variable {κ τ : Type} [DecidableEq κ]

omit [DecidableEq κ] in
/-- The links of the entries, their flags and the counter agree with the idle list of a store. -/
structure Threads (links : LinkedList EntryId) (store : Store κ τ) : Prop where
  spells : links.Spells store.idle
  marked : ∀ e : Nat, links.marked e = (store.heap[e]?).any Entry.inIdle
  count : links.count = store.idleCount

namespace Threads

variable {links : LinkedList EntryId} {store next : Store κ τ} {e : EntryId} {entry : Entry κ τ}

omit [DecidableEq κ] in
/-- A new pool has an empty list. -/
theorem empty : Threads LinkedList.empty (Store.empty : Store κ τ) where
  -- No node is linked, and none is flagged.
  spells := LinkedList.spells_empty
  marked := fun _ => rfl
  count := rfl

omit [DecidableEq κ] in
/-- What changes neither the list nor the flags leaves the links as they are. -/
theorem same (threads : Threads links store) (idle : next.idle = store.idle)
    (count : next.idleCount = store.idleCount)
    (flags : ∀ e : Nat, (next.heap[e]?).any Entry.inIdle = (store.heap[e]?).any Entry.inIdle) :
    Threads links next where
  -- All that the links stand for is read as before.
  spells := idle ▸ threads.spells
  marked := fun e => (threads.marked e).trans (flags e).symm
  count := threads.count.trans count.symm

omit [DecidableEq κ] in
/-- Assigning other fields of an entry leaves the links as they are. -/
theorem update (threads : Threads links store) (assign : Entry κ τ → Entry κ τ)
    (flag : ∀ entry, (assign entry).inIdle = entry.inIdle) :
    Threads links (store.update e assign) :=
  -- The flag of the entry is carried over.
  threads.same rfl rfl fun other => by
    rw [Store.update_heap, Arena.any_getElem?_modify _ fun record _ => flag record]

omit [DecidableEq κ] in
/-- Listing an entry appends its node. -/
theorem idleAppend (threads : Threads links store) (found : store.heap[e]? = some entry) :
    Threads (links.append e) (store.idleAppend e) := by
  have flag : links.marked e = entry.inIdle := by simp [threads.marked, found]
  cases raised : entry.inIdle with
  -- Both leave a flagged entry where it is.
  | true =>
    simpa [LinkedList.append, Store.idleAppend, found, flag, raised] using threads
  | false =>
    rw [raised] at flag
    constructor
    case spells =>
      rw [Store.idleAppend_idle found raised]
      exact threads.spells.append flag
    case marked =>
      intro other
      rw [Store.idleAppend_heap]
      by_cases same : other = e
      · simp [LinkedList.append, flag, same, found]
      · simp [LinkedList.append, flag, same, Ne.symm same, threads.marked]
    case count =>
      simp [LinkedList.append, Store.idleAppend, found, flag, raised, threads.count]

omit [DecidableEq κ] in
/-- Unlisting an entry that is listed if it is flagged removes its node. -/
theorem idleRemove (threads : Threads links store)
    (listed : ∀ entry, store.heap[e]? = some entry → entry.inIdle = true → e ∈ store.idle) :
    Threads (links.remove e) (store.idleRemove e) := by
  have flag := threads.marked e
  cases found : store.heap[e]? with
  | none =>
    rw [found, Option.any_none] at flag
    simpa [LinkedList.remove, Store.idleRemove, found, flag] using threads
  | some entry =>
    rw [found, Option.any_some] at flag
    cases raised : entry.inIdle with
    -- Both leave an entry that is not flagged where it is.
    | false =>
      simpa [LinkedList.remove, Store.idleRemove, found, flag, raised] using threads
    | true =>
      rw [raised] at flag
      constructor
      case spells =>
        rw [Store.idleRemove_idle found raised]
        exact threads.spells.remove (listed entry found raised)
      case marked =>
        intro other
        rw [Store.idleRemove_heap]
        by_cases same : other = e
        · simp [LinkedList.remove, flag, same, found]
        · simp [LinkedList.remove, flag, same, Ne.symm same, threads.marked]
      case count =>
        simp [LinkedList.remove, Store.idleRemove, found, flag, raised, threads.count]

omit [DecidableEq κ] in
/-- Starting a disposal leaves the links as they are. -/
theorem beginDispose (threads : Threads links store) (e : EntryId) :
    Threads links (store.beginDispose e) :=
  -- The disposal writes another flag than the one that the links have.
  threads.same (Store.beginDispose_idle store e) (Store.beginDispose_idleCount store e)
    fun other => by
      rw [Store.beginDispose_heap]
      refine Arena.any_getElem?_modify Entry.inIdle (fun record _ => ?_) other
      rfl

/-- Evicting an entry that is listed if it is flagged removes its node. -/
theorem evict (threads : Threads links store)
    (listed : ∀ entry, store.heap[e]? = some entry → entry.inIdle = true → e ∈ store.idle) :
    Threads (links.remove e) ((store.unlink e).beginDispose e) := by
  -- The key is deleted and the disposal starts, neither of which looks at the list.
  refine Threads.beginDispose ((threads.idleRemove listed).same ?_ ?_ fun other => ?_) e
  · rw [Store.unlink_idle]
  · rw [Store.unlink_idleCount]
  · rw [Store.unlink_heap, Store.idleRemove_heap]

/-- Discarding an entry that is listed if it is flagged removes its node. -/
theorem discard (threads : Threads links store)
    (listed : ∀ entry, store.heap[e]? = some entry → entry.inIdle = true → e ∈ store.idle) :
    Threads (links.remove e) ((store.removeEntry e).beginDispose e) := by
  -- The removal is that of the node, followed by a disposal.
  refine Threads.beginDispose ((threads.idleRemove listed).same ?_ ?_ fun other => ?_) e
  · rw [Store.removeEntry_idle]
  · rw [Store.removeEntry_idleCount]
  · rw [Store.removeEntry_heap, Store.idleRemove_heap]

omit [DecidableEq κ] in
/-- The first reference of an entry removes its node, and a further one does not. -/
theorem checkout (threads : Threads links store) (found : store.heap[e]? = some entry)
    (listed : entry.inIdle = true → e ∈ store.idle) :
    Threads (if entry.refCount = 0 then links.remove e else links) (store.checkout e) := by
  -- Whether the entry is unlisted depends on its count.
  simp only [Store.checkout, found]
  split
  · refine (threads.idleRemove fun record read raised => ?_).update _ fun _ => rfl
    cases found.symm.trans read
    exact listed raised
  · exact threads.update _ fun _ => rfl

/-- A fresh entry is linked behind the tail. -/
theorem insert (threads : Threads links store) (key : κ) (resource : τ) (now : Int) :
    Threads (links.append store.heap.length) (store.insert key resource now) := by
  -- The entry is built without a flag, and then listed.
  refine Threads.idleAppend ?_ List.getElem?_concat_length
  refine threads.same rfl rfl fun other => ?_
  rw [Arena.getElem?_push]
  split
  · rename_i same
    simp [same]
  · rfl

omit [DecidableEq κ] in
/-- A list that is forgotten leaves the flags of its nodes behind. -/
theorem reset (threads : Threads links store) : Threads links.reset store.resetIdle where
  -- The list is forgotten as a whole, and no flag is taken down.
  spells := LinkedList.Spells.reset
  marked := threads.marked
  count := rfl

end Threads

namespace State

variable {options : PoolOptions} {s next : State κ τ} {links : LinkedList EntryId} {e : EntryId}
  {entry : Entry κ τ}

/-! ### References -/

omit [DecidableEq κ] in
/-- Taking a reference of an entry that is listed if it is flagged keeps the links in place. -/
theorem threads_checkout (threads : Threads links s.toStore) (found : s.heap[e]? = some entry)
    (listed : entry.inIdle = true → e ∈ s.idle) :
    Threads (s.checkoutLinks e links) (s.toStore.checkout e) := by
  -- The links are asked about the same entry.
  simp only [checkoutLinks, found]
  exact threads.checkout found listed

/-- Dropping a reference keeps the links in place. -/
theorem threads_releaseEntry (wf : s.toStore.WellFormed) (threads : Threads links s.toStore)
    (e : EntryId) : Threads (s.releaseLinks e links) (s.releaseEntry e).toStore := by
  cases found : s.heap[e]? with
  | none => simpa only [releaseLinks, releaseEntry, found] using threads
  | some entry =>
    simp only [releaseLinks, releaseEntry, found]
    by_cases ended : entry.disposed = true
    · rwa [if_pos ended, if_pos ended]
    rw [if_neg ended, if_neg ended]
    by_cases spent : entry.refCount = 0
    · rwa [if_pos spent, if_pos spent]
    rw [if_neg spent, if_neg spent]
    by_cases shared : entry.refCount - 1 ≠ 0
    · rw [if_pos shared, if_pos shared]
      exact threads.update _ fun _ => rfl
    rw [if_neg shared, if_neg shared]
    have stamped : Threads links (s.toStore.update e (lastDrop s.now)) :=
      threads.update _ fun _ => rfl
    rw [← stampReleased_dropReference] at stamped
    simp only [releaseLast]
    by_cases doomed : entry.condemned = true ∨ s.orphans.get? entry.key = some e
    -- An entry that was held is not flagged, so its removal touches no link.
    · rw [if_pos doomed]
      split
      · refine Threads.discard stamped fun record read raised => ?_
        rw [stampReleased_dropReference, Store.update_heap,
          Arena.getElem?_modify_self _ found] at read
        cases read
        exact absurd ((wf.sound e entry found).flagged raised) spent
      · exact absurd doomed ‹_›
    · rw [if_neg doomed]
      split
      · exact absurd ‹_› doomed
      · have dropped : ((s.dropReference e).stampReleased e).heap[e]? =
            some (lastDrop s.now entry) := by
          rw [stampReleased_dropReference]
          exact Arena.getElem?_modify_self _ found
        exact Threads.idleAppend stamped dropped

/-! ### The walks over the list -/

/-- The idle list is no longer than the heap. -/
theorem length_idle_le (wf : s.toStore.WellFormed) : s.idle.length ≤ s.heap.length := by
  -- Its nodes are distinct addresses of entries.
  have inside : s.idle ⊆ List.range s.heap.length := fun e listed => by
    obtain ⟨entry, found, -⟩ := wf.listed e listed
    exact List.mem_range.mpr (List.getElem?_eq_some_iff.mp found).1
  simpa using (List.subperm_of_subset wf.once inside).length_le

/-- The walk for a victim detaches the first node whose key has no acquire in flight. -/
theorem takeLruIdleLinks_eq (wf : s.toStore.WellFormed) (threads : Threads links s.toStore) :
    s.takeLruIdleLinks links =
      (s.idle.find? fun node => !s.nodePending node,
        (s.idle.find? fun node => !s.nodePending node).elim links links.remove) := by
  have spells : links.Spells ([] ++ s.idle) := threads.spells
  rw [takeLruIdleLinks, threads.spells.head, LinkedList.walk_eq_visit ?keeps spells
    (length_idle_le wf)]
  case keeps =>
    intro walked done node rest spells
    unfold takeLruIdleTurn
    split
    · exact ⟨done ++ [node], by simpa using spells⟩
    · exact ⟨done, spells.removeAt⟩
  -- Every node passed over is pending, and the walk ends with the first one that is not.
  induction s.idle with
  | nil => rfl
  | cons node rest ih =>
    cases pending : s.nodePending node with
    | true => simpa [LinkedList.visit, takeLruIdleTurn, pending] using ih
    | false => simp [LinkedList.visit, takeLruIdleTurn, pending]

/-- The nodes that a sweep evicts: those ahead of the first fresh one, less the pending ones. -/
def overdue (s : State κ τ) (cutoff : Int) (nodes : List EntryId) : List EntryId :=
  (nodes.takeWhile fun node =>
    (s.heap[node]?).any fun entry => entry.lastReleasedAt ≤ cutoff).filter
      fun node => !s.nodePending node

/-- One turn of the walk of a sweep. -/
theorem overdue_cons (s : State κ τ) (cutoff : Int) {node : EntryId} {entry : Entry κ τ}
    (found : s.heap[node]? = some entry) (rest : List EntryId) :
    s.overdue cutoff (node :: rest) =
      if cutoff < entry.lastReleasedAt then []
      else if s.nodePending node then s.overdue cutoff rest
      else node :: s.overdue cutoff rest := by
  -- The walk ends at the first node that is not overdue.
  by_cases fresh : cutoff < entry.lastReleasedAt
  · simp [overdue, found, fresh]
  · have old : entry.lastReleasedAt ≤ cutoff := by omega
    cases pending : s.nodePending node <;> simp [overdue, found, fresh, old, pending]

/-- The walk of a sweep over the links evicts the overdue nodes, one after the other. -/
theorem sweepLinksFrom_eq (wf : s.toStore.WellFormed) (threads : Threads links s.toStore)
    (cutoff : Int) : s.sweepLinksFrom cutoff links =
      (s.overdue cutoff s.idle, (s.overdue cutoff s.idle).foldl LinkedList.remove links) := by
  have spells : links.Spells ([] ++ s.idle) := threads.spells
  rw [sweepLinksFrom, threads.spells.head, LinkedList.walk_eq_visit ?keeps spells
    (length_idle_le wf)]
  case keeps =>
    intro walked done node rest spells
    have stays : walked.2.Spells ((done ++ [node]) ++ rest) := by simpa using spells
    unfold sweepTurn
    split
    · exact ⟨_, stays⟩
    · split
      · exact ⟨_, stays⟩
      · split
        · exact ⟨_, stays⟩
        · exact ⟨done, spells.removeAt⟩
  -- What was evicted before stays in front of what the rest of the walk evicts.
  have general (nodes evicted : List EntryId) (links : LinkedList EntryId)
      (listed : ∀ node ∈ nodes, ∃ entry, s.heap[node]? = some entry) :
      LinkedList.visit (s.sweepTurn cutoff) nodes (evicted, links) =
        (evicted ++ s.overdue cutoff nodes,
          (s.overdue cutoff nodes).foldl LinkedList.remove links) := by
    induction nodes generalizing evicted links with
    | nil => simp [LinkedList.visit, overdue]
    | cons node rest ih =>
      obtain ⟨entry, found⟩ := listed node List.mem_cons_self
      have later := fun other inside => listed other (List.mem_cons_of_mem _ inside)
      rw [overdue_cons s cutoff found]
      simp only [LinkedList.visit, sweepTurn, found]
      split
      · simp
      · split
        · simpa using ih evicted links later
        · simpa using ih (evicted ++ [node]) (links.remove node) later
  exact general s.idle [] links fun node listed => (wf.listed node listed).imp fun _ => And.left

/-- What a sweep does to an overdue entry. -/
def sweepOut (s : State κ τ) (node : EntryId) : State κ τ :=
  (s.evict node .ttl).wakeCapacityWaiter

/-- Evicting one node leaves the other entries as they were. -/
theorem sweepOut_other {node other : EntryId} (differ : other ≠ node) :
    (s.sweepOut node).heap[other]? = s.heap[other]? := by
  -- The eviction writes to the record of its own node.
  show ((s.toStore.unlink node).beginDispose node).heap[other]? = s.heap[other]?
  rw [Store.evict_heap, Arena.getElem?_modify_other _ _ (Ne.symm differ)]

/-- Evicting one node leaves the others listed. -/
theorem mem_sweepOut {node other : EntryId} (differ : other ≠ node) :
    other ∈ (s.sweepOut node).idle ↔ other ∈ s.idle := by
  -- The disposal writes nothing to the list, and unlinking takes its own node out.
  show other ∈ ((s.toStore.unlink node).beginDispose node).idle ↔ other ∈ s.idle
  rw [Store.beginDispose_idle, Store.unlink_idle]
  exact (Store.OnlyEntry.idleRemove s.toStore node).mem_idle differ

/-- Which nodes are overdue is read off their entries and the marks. -/
theorem overdue_congr (cutoff : Int) {nodes : List EntryId}
    (same : ∀ node ∈ nodes, next.heap[node]? = s.heap[node]?)
    (keys : next.toKeyState = s.toKeyState) :
    next.overdue cutoff nodes = s.overdue cutoff nodes := by
  -- The walk reads the stamp of a node and whether its key is pending.
  induction nodes with
  | nil => rfl
  | cons node rest ih =>
    have here := same node List.mem_cons_self
    have later := ih fun other inside => same other (List.mem_cons_of_mem _ inside)
    have pending : next.nodePending node = s.nodePending node := by
      simp only [nodePending, here, keys]
    simp only [overdue, List.takeWhile_cons, here] at later ⊢
    split
    · simp only [List.filter_cons, pending, later]
    · rfl

/-- The walk of a sweep evicts the overdue nodes, one after the other. -/
theorem sweepFrom_eq (cutoff : Int) {nodes : List EntryId} (once : nodes.Nodup)
    (listed : ∀ node ∈ nodes, ∃ entry, s.heap[node]? = some entry) (swept : Nat) :
    sweepFrom cutoff nodes s swept = ((s.overdue cutoff nodes).foldl sweepOut s,
      swept + (s.overdue cutoff nodes).length) := by
  -- The entries ahead are found by the walk as they were before it.
  induction nodes generalizing s swept with
  | nil => rfl
  | cons node rest ih =>
    obtain ⟨absent, once⟩ := List.nodup_cons.mp once
    obtain ⟨entry, found⟩ := listed node List.mem_cons_self
    have later := fun other inside => listed other (List.mem_cons_of_mem node inside)
    rw [overdue_cons s cutoff found]
    simp only [sweepFrom, found]
    split
    · rfl
    · split
      · exact ih once later swept
      · have ahead : ∀ other ∈ rest, (s.sweepOut node).heap[other]? = s.heap[other]? :=
          fun other inside => sweepOut_other fun same => absent (same ▸ inside)
        have rest' := ih (s := s.sweepOut node) once
          (fun other inside => by rw [ahead other inside]; exact later other inside) (swept + 1)
        rw [overdue_congr cutoff ahead rfl] at rest'
        rw [Nat.add_right_comm] at rest'
        exact rest'

/-- Evicting listed nodes one after the other removes them from the links. -/
theorem threads_evictAll {nodes : List EntryId} (once : nodes.Nodup)
    (listed : ∀ node ∈ nodes, node ∈ s.idle) (threads : Threads links s.toStore) :
    Threads (nodes.foldl LinkedList.remove links) (nodes.foldl sweepOut s).toStore := by
  -- Evicting a node leaves the others on the list.
  induction nodes generalizing s links with
  | nil => exact threads
  | cons node rest ih =>
    obtain ⟨absent, once⟩ := List.nodup_cons.mp once
    refine ih once (fun other inside => ?_)
      (threads.evict fun _ _ _ => listed node List.mem_cons_self)
    have differ : other ≠ node := fun same => absent (same ▸ inside)
    exact (mem_sweepOut differ).mpr (listed other (List.mem_cons_of_mem _ inside))

/-- The overdue nodes are some of the nodes walked over, in their order. -/
theorem overdue_sublist (s : State κ τ) (cutoff : Int) (nodes : List EntryId) :
    (s.overdue cutoff nodes).Sublist nodes :=
  -- They are a part of a beginning.
  List.filter_sublist.trans (List.takeWhile_sublist _)

/-- A sweep with a time to live evicts the overdue nodes, and announces how many they were. -/
theorem sweep_eq (wf : s.toStore.WellFormed) {ttl : Int} (limit : options.idleTtlMs = some ttl)
    (on : ttl ≠ 0) : s.sweep options =
      if 0 < (s.overdue (s.now - ttl) s.idle).length then
        ((s.overdue (s.now - ttl) s.idle).foldl sweepOut s).emit
          (.idleSweep (s.overdue (s.now - ttl) s.idle).length)
      else (s.overdue (s.now - ttl) s.idle).foldl sweepOut s := by
  -- The walk evicts the overdue nodes one by one, and the rest counts them.
  simp only [sweep, limit, if_neg on]
  rw [sweepFrom_eq _ wf.once fun node listed => (wf.listed node listed).imp fun _ => And.left]
  simp

/-- The same sweep over the links removes the same nodes. -/
theorem sweepLinks_eq (wf : s.toStore.WellFormed) (threads : Threads links s.toStore) {ttl : Int}
    (limit : options.idleTtlMs = some ttl) (on : ttl ≠ 0) : s.sweepLinks options links =
      (s.overdue (s.now - ttl) s.idle,
        (s.overdue (s.now - ttl) s.idle).foldl LinkedList.remove links) := by
  -- The walk over the links is the walk over the list.
  simp only [sweepLinks, limit, if_neg on]
  exact sweepLinksFrom_eq wf threads _

/-- A sweep without a time to live does nothing. -/
theorem sweep_off (off : options.idleTtlMs = none ∨ options.idleTtlMs = some 0) :
    s.sweep options = s ∧ s.sweepLinks options links = ([], links) := by
  -- Both walks test the option first.
  rcases off with off | off <;> simp [sweep, sweepLinks, off]

/-- A sweep keeps the links in place. -/
theorem threads_sweep (wf : s.toStore.WellFormed) (threads : Threads links s.toStore) :
    Threads (s.sweepLinks options links).2 (s.sweep options).toStore := by
  -- Without a limit neither of the two sweeps does anything.
  by_cases off : options.idleTtlMs = none ∨ options.idleTtlMs = some 0
  · have still : s.sweep options = s ∧ s.sweepLinks options links = ([], links) := sweep_off off
    rw [still.1, still.2]
    exact threads
  · obtain ⟨ttl, limit⟩ := Option.ne_none_iff_exists'.mp fun absent => off (.inl absent)
    have on : ttl ≠ 0 := fun zero => off (.inr (zero ▸ limit))
    have overdue := s.overdue_sublist (s.now - ttl) s.idle
    have swept := threads_evictAll (overdue.nodup wf.once) (fun _ inside => overdue.subset inside)
      threads
    rw [sweep_eq wf limit on, sweepLinks_eq wf threads limit on]
    split <;> exact swept

/-! ### The methods -/

/-- A turn of the reservation loop keeps the links in place. -/
theorem threads_acquireSlot (wf : s.toStore.WellFormed) (threads : Threads links s.toStore)
    (a : AcquireId) :
    Threads (s.acquireSlotLinks options links) (s.acquireSlot options a).toStore := by
  unfold acquireSlotLinks acquireSlot
  by_cases off : options.max ≤ 0
  · rwa [if_pos off, if_pos off]
  rw [if_neg off, if_neg off]
  by_cases closed : s.closed = true
  · rwa [if_pos closed, if_pos closed]
  rw [if_neg closed, if_neg closed]
  by_cases room : s.entries.size + s.reserved < options.max
  · rwa [if_pos room, if_pos room]
  rw [if_neg room, if_neg room, takeLruIdleLinks_eq wf threads, takeLruIdle]
  -- A victim is detached from the links just as it is unlinked from the list.
  cases picked : s.idle.find? fun node => !s.nodePending node with
  | some victim => exact threads.evict fun _ _ _ => List.mem_of_find?_eq_some picked
  | none =>
    simp only [Option.map_none, Option.elim_none, waitForCapacity, if_neg closed]
    split <;> exact threads

/-- `obtain` from the orphan lookup on keeps the links in place. -/
theorem threads_obtainMissing (wf : s.toStore.WellFormed) (threads : Threads links s.toStore)
    (a : AcquireId) (key : κ) : Threads (s.obtainMissingLinks options key links)
      (s.obtainMissing options a key).toStore := by
  unfold obtainMissingLinks obtainMissing
  -- An orphan is not on the list, and goes to no place on it.
  cases orphan : s.undisposed s.orphans key with
  | some pair => exact threads.same rfl rfl fun _ => rfl
  | none =>
    dsimp only
    by_cases closed : s.closed = true
    · rwa [if_pos closed, if_pos closed]
    · rw [if_neg closed, if_neg closed]
      exact threads_acquireSlot (s := s.miss) wf threads a

/-- `obtain` up to its first await keeps the links in place. -/
theorem threads_obtain (wf : s.toStore.WellFormed) (threads : Threads links s.toStore)
    (a : AcquireId) (key : κ) :
    Threads (s.obtainLinks options key links) (s.obtain options a key).toStore := by
  -- A live entry ends the search before the list is touched.
  unfold obtainLinks obtain
  cases live : s.undisposed s.entries key with
  | some pair =>
    dsimp only
    split <;> exact threads
  | none => exact threads_obtainMissing wf threads a key

/-- A call of `acquire` up to its first await keeps the links in place. -/
theorem threads_acquire (marked : Marked s) (threads : Threads links s.toStore) (key : κ) :
    Threads (s.relink options links (.acquire key)) (s.acquire key).toStore := by
  simp only [relink, acquire]
  -- The fast path shares an entry that is held, and other calls queue.
  cases fast : (s.undisposed s.entries key).filter fun fast => 0 < fast.2.refCount with
  | none => exact threads
  | some pair =>
    obtain ⟨e, entry⟩ := pair
    obtain ⟨live, -⟩ := Option.filter_eq_some_iff.mp fast
    obtain ⟨bound, found, -⟩ := undisposed_eq_some live
    exact threads_checkout threads found (marked.listed key e entry bound found)

/-- A release by key keeps the links in place. -/
theorem threads_release (wf : s.toStore.WellFormed) (threads : Threads links s.toStore) (key : κ) :
    Threads (s.relink options links (.release key)) (s.release key).toStore := by
  -- The entry is searched in both maps before anything is touched.
  simp only [relink, release]
  cases (s.entries.get? key).or (s.orphans.get? key) with
  | none => exact threads
  | some e => exact threads_releaseEntry wf threads e

/-- A release of a handle keeps the links in place. -/
theorem threads_releaseHandle (wf : s.toStore.WellFormed) (threads : Threads links s.toStore)
    {h : HandleId} {handle : Handle} (found : s.handles[h]? = some handle) :
    Threads (s.relink options links (.releaseHandle h)) (s.releaseHandle h handle).toStore := by
  -- The flag of the handle is tested before anything is touched.
  simp only [relink, found, releaseHandle]
  by_cases spent : handle.released = true
  · rwa [if_pos spent, if_pos spent]
  · rw [if_neg spent, if_neg spent]
    exact threads_releaseEntry (s := { s with
      handles := s.handles.modify h fun handle => { handle with released := true } }) wf threads _

/-- The flag of a claimed entry can be trusted. -/
theorem Marked.listed_of_claimed (marked : Marked s) {a : AcquireId} {acquire : Acquire κ}
    (called : s.acquires[a]? = some acquire) (claimed : acquire.phase.claimed = some e)
    (found : s.heap[e]? = some entry) (raised : entry.inIdle = true) : e ∈ s.idle :=
  -- A claimed entry is listed if it is flagged.
  (marked.claimed a acquire e called claimed).listed marked.core.store marked.listed found raised

/-- One turn of a drain over the live entries keeps the links in place. -/
theorem threads_drainEntry {first : State κ τ} (same : first.heap[e]? = s.heap[e]?)
    (listed : ∀ entry, s.heap[e]? = some entry → entry.inIdle = true → e ∈ s.idle)
    (threads : Threads links s.toStore) :
    Threads (first.drainTurn links e) (s.drainEntry e).1.toStore := by
  cases found : s.heap[e]? with
  | none => simpa only [drainTurn, same, drainEntry, found] using threads
  | some entry =>
    by_cases unheld : entry.refCount = 0
    · rw [drainEntry_idle found unheld]
      simp only [drainTurn, same, found, if_pos unheld]
      exact threads.evict listed
    -- A held entry is condemned and waited for, neither of which moves a node.
    · have condemned : Threads links ((s.toStore.deleteKey e).orphan entry.key e) :=
        (threads.same (by simp) (by simp) fun _ => by simp : Threads links (s.toStore.deleteKey e))
          |>.update (fun entry => { entry with condemned := true }) (fun _ => rfl)
          |>.same rfl rfl fun _ => rfl
      simp only [drainTurn, same, found, drainEntry, if_neg unheld, awaitDisposal]
      split
      · exact condemned
      · exact condemned.update _ fun _ => rfl

omit [DecidableEq κ] in
/-- One turn of a drain over the orphans keeps the links in place. -/
theorem threads_drainOrphan (threads : Threads links s.toStore) (e : EntryId) :
    Threads links (s.drainOrphan e).1.toStore := by
  -- An orphan is condemned where it is, and not unlinked.
  cases found : s.heap[e]? with
  | none => simpa only [drainOrphan, found] using threads
  | some entry =>
    have condemned : Threads links
        (s.toStore.update e fun entry => { entry with condemned := true }) :=
      threads.update _ fun _ => rfl
    simp only [drainOrphan, found, awaitDisposal]
    split
    · exact condemned
    · exact condemned.update _ fun _ => rfl

/-- A drain on its walk over the live entries, those ahead being as they were when it began. -/
structure Walking (s : State κ τ) (links : LinkedList EntryId) (rest : List EntryId)
    (next : State κ τ) : Prop where
  listed : next.toStore.Listed
  ahead : ∀ e ∈ rest, next.heap[e]? = s.heap[e]?
  threads : ∃ reached, Threads reached next.toStore ∧
    rest.foldl s.drainTurn reached = s.entries.values.foldl s.drainTurn links

/-- A turn of the walk takes the first of the entries ahead. -/
theorem Walking.turn {middle after : State κ τ} {rest : List EntryId}
    (walking : Walking s links (e :: rest) middle) (absent : e ∉ rest)
    (turned : (middle.drainEntry e).1 = after)
    (only : Store.OnlyEntry e middle.toStore after.toStore) (listed : after.toStore.Listed)
    (own : ∀ entry, middle.heap[e]? = some entry → entry.inIdle = true → e ∈ middle.idle) :
    Walking s links rest after := by
  obtain ⟨reached, threads, walked⟩ := walking.threads
  have same := walking.ahead e List.mem_cons_self
  -- The turn unlinks its own entry on both sides, and leaves those ahead alone.
  have follows := threads_drainEntry same.symm own threads
  rw [turned] at follows
  refine ⟨listed, fun other inside => ?_, _, follows, walked⟩
  rw [only.heap other fun here => absent (here ▸ inside)]
  exact walking.ahead other (List.mem_cons_of_mem _ inside)

/-- A drain keeps the links in place until it resets the list. -/
theorem threads_drain (wf : s.toStore.WellFormed) (listed : s.toStore.Listed)
    (threads : Threads links s.toStore) : Threads (s.drainLinks links) s.drain.toStore := by
  -- The first loop visits every live entry as it was when the drain began.
  have live := live_rule (s := s.draining) (P := fun rest next _ => Walking s links rest next) wf
    ?idle ?held ⟨listed, fun _ _ => rfl, links, threads, rfl⟩
  case idle =>
    intro rest next waits e entry wf absent walking found bound unheld
    exact walking.turn absent (congrArg Prod.fst (drainEntry_idle found unheld))
      (.evict found bound) (walking.listed.evict found)
      fun record read raised => walking.listed entry.key e record bound read raised
  case held =>
    intro rest next waits e entry wf absent walking found bound held
    have undisposed := (wf.sound e entry found).undisposed (wf.live_at bound found).undisposed
    exact walking.turn absent (congrArg Prod.fst (drainEntry_held found held undisposed))
      (onlyEntry_condemnHeld wf found bound) (listed_condemnHeld wf walking.listed found bound)
      fun record read raised => walking.listed entry.key e record bound read raised
  obtain ⟨middle, visited, first, -, walking, -⟩ := live
  obtain ⟨reached, threads, walked⟩ := walking.threads
  -- The second loop moves no node, and the list is reset after it.
  have orphaned := drainLoop_rule drainOrphan (P := fun _ next _ => Threads reached next.toStore)
    (fun e _ next _ threads => threads_drainOrphan threads e) middle.orphans.values middle visited
    threads
  rw [drain_eq first, drainLinks, ← walked]
  exact orphaned.reset

/-- Every step keeps the links in place. -/
theorem threads_step {action : Action κ τ} (marked : Marked s) (threads : Threads links s.toStore)
    (stepped : s.step options action = some next) :
    Threads (s.relink options links action) next.toStore := by
  have wf := marked.core.store
  have follow {reached : State κ τ} (same : some reached = some next)
      (kept : Threads (s.relink options links action) reached.toStore) :
      Threads (s.relink options links action) next.toStore := Option.some.inj same ▸ kept
  -- Where the step may move a node, the links follow the method that the step runs.
  cases step_effect stepped with
  | shared key | queued key => exact follow stepped (threads_acquire marked threads key)
  | releasedAgain h handle found | released h handle next found =>
    simp only [State.step, found, Option.map_some] at stepped
    exact follow stepped (threads_releaseHandle wf threads found)
  | releasedNone key | releasedKey key => exact follow stepped (threads_release wf threads key)
  | drain => exact threads_drain wf marked.listed threads
  | stop => exact threads_drain (s := s.setClosed.stopTimers) wf marked.listed threads
  | sweep => exact threads_sweep wf threads
  | validating a acquire after e entry called phase turn
  | returned a acquire after e entry called phase turn
  | missed a acquire after next called phase turn =>
    simp only [State.step, called, Option.bind_some, phase, turn, if_true] at stepped
    refine follow stepped ?_
    simp only [relink, called]
    exact threads_obtain wf threads a acquire.key
  -- The calls that go on after an await touch the list where they search or evict.
  | discarded a acquire live next called phase =>
    simp only [State.step, called, Option.bind_some, phase] at stepped
    obtain ⟨-, stepped⟩ := Option.ite_none_right_eq_some.mp stepped
    refine follow stepped ?_
    simp only [relink, called]
    exact threads_obtainMissing wf threads a acquire.key
  | resumed a acquire w waiter next called phase found woken =>
    simp only [State.step, called, Option.bind_some, phase, found, woken, resume] at stepped
    refine follow stepped ?_
    simp only [relink, called, Option.map_some, phase, found, woken]
    exact threads_acquireSlot wf threads a
  | abandoned a acquire w waiter error called phase found rejected =>
    simp only [relink, called, Option.map_some, phase, found, rejected]
    exact threads
  -- The first reference removes the node of the entry.
  | delivered a acquire e called phase =>
    obtain ⟨entry, found, -⟩ := marked.core.fits called phase
    simp only [relink, called, Option.map_some, phase]
    have listed := marked.listed_of_claimed called (by rw [phase]; rfl) found
    exact threads_checkout threads found listed
  | failed a acquire error called phase =>
    simp only [relink, called, Option.map_some, phase]
    exact threads
  | refuted a acquire live called phase =>
    simp only [relink, called, Option.map_some, phase]
    exact threads.discard fun entry found =>
      marked.listed_of_claimed called (by rw [phase]; rfl) found
  | execLate x exec resource found outstanding closed =>
    simp only [relink, if_pos closed]
    exact threads
  | inserted x exec resource found outstanding opened =>
    simp only [relink, opened, Bool.false_eq_true, if_false]
    exact threads.insert exec.key resource s.now
  -- The end of a disposal assigns no flag of the list.
  | disposeSettled e entry =>
    refine threads.same ?_ ?_ fun other => ?_
    · simp [finishDispose, dropBreaker, emit]
    · simp [finishDispose, dropBreaker, emit]
    · rw [finishDispose_heap]
      refine Arena.any_getElem?_modify Entry.inIdle (fun record _ => ?_) other
      rfl
  | start | gcKeyState | emitStats | timeout | clock | breakerless | creating | drained
  | unvalidated | passed | factoryCalled | factorySettled | execRejected | lateDisposeSettled
  | breakerChanged => exact threads

end State

end RefPool
