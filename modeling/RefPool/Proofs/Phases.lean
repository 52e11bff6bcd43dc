import RefPool.Proofs.WellFormed
import RefPool.Proofs.Mutex

/-! What a suspended `acquire` can rely on, and the operations on other keys that respect it. -/

namespace RefPool

variable {κ τ : Type} [DecidableEq κ]

namespace Store

/-- What an operation must not do to the key of an acquire in progress. -/
structure Respects (key : κ) (store next : Store κ τ) : Prop where
  /-- Entries of the key keep it, stay unheld if they were, and stay doomed if they were. -/
  heap : ∀ (e : Nat) entry, store.heap[e]? = some entry → entry.key = key →
    ∃ after, next.heap[e]? = some after ∧ after.key = key ∧
      (entry.refCount = 0 → after.refCount = 0) ∧
      (entry.disposing = true → after.disposing = true)
  /-- The key is not bound to another entry. -/
  entries : ∀ e, next.entries.get? key = some e → store.entries.get? key = some e
  /-- Only a held entry becomes an orphan. -/
  orphans : ∀ e, next.orphans.get? key = some e → store.orphans.get? key = some e ∨
    (store.entries.get? key = some e ∧
      ∃ entry, store.heap[e]? = some entry ∧ 0 < entry.refCount)
  /-- An unheld live entry leaves the map only to be disposed of. -/
  unheld : ∀ (e : Nat) entry, store.entries.get? key = some e → store.heap[e]? = some entry →
    entry.refCount = 0 → next.entries.get? key = some e ∨
      (next.entries.get? key = none ∧ ∃ after, next.heap[e]? = some after ∧ after.disposing = true)

namespace Respects

variable {key : κ} {store middle next : Store κ τ} {e : EntryId} {entry : Entry κ τ}

/-- Doing nothing respects every key. -/
theorem refl (key : κ) (store : Store κ τ) : Respects key store store where
  -- Every record is the one that was read.
  heap := fun _ record found same => ⟨record, found, same, id, id⟩
  entries := fun _ => id
  orphans := fun _ => .inl
  unheld := fun _ _ bound _ _ => .inl bound

/-- Two operations that respect a key respect it in sequence. -/
theorem trans (wf : store.WellFormed) (first : Respects key store middle)
    (second : Respects key middle next) : Respects key store next where
  heap := by
    intro e record found same
    obtain ⟨between, present, key, zero, begun⟩ := first.heap e record found same
    obtain ⟨after, last, key, zero', begun'⟩ := second.heap e between present key
    exact ⟨after, last, key, zero' ∘ zero, begun' ∘ begun⟩
  entries := fun e bound => first.entries e (second.entries e bound)
  orphans := by
    intro e bound
    rcases second.orphans e bound with before | ⟨live, between, present, held⟩
    · exact first.orphans e before
    · -- The entry was live before the first operation, and held then as well.
      have before := first.entries e live
      obtain ⟨record, found, promised⟩ := wf.live key e before
      obtain ⟨after, last, -, zero, -⟩ := first.heap e record found promised.key
      cases present.symm.trans last
      refine .inr ⟨before, record, found, Nat.pos_of_ne_zero fun unheld => ?_⟩
      have := zero unheld
      omega
  unheld := by
    intro e record bound found unheld
    have same := (wf.live_at bound found).key
    obtain ⟨between, present, key', zero, -⟩ := first.heap e record found same
    rcases first.unheld e record bound found unheld with live | ⟨gone, between', present', doomed⟩
    · exact second.unheld e between live present (zero unheld)
    · right
      cases present.symm.trans present'
      obtain ⟨after, last, -, -, begun⟩ := second.heap e between present key'
      refine ⟨?_, after, last, begun doomed⟩
      cases later : next.entries.get? key with
      | none => rfl
      | some other => simp [second.entries other later] at gone

/-- The rule for operations that reassign one entry and bind nothing. -/
theorem reassign (e : EntryId) (assign : Entry κ τ → Entry κ τ)
    (heap : next.heap = store.heap.modify e assign)
    (kept : ∀ record, (assign record).key = record.key)
    (zero : ∀ record, store.heap[e]? = some record → record.key = key → record.refCount = 0 →
      (assign record).refCount = 0)
    (begun : ∀ record, record.disposing = true → (assign record).disposing = true)
    (entries : ∀ other, next.entries.get? key = some other → store.entries.get? key = some other)
    (orphans : ∀ other, next.orphans.get? key = some other → store.orphans.get? key = some other)
    (unheld : ∀ (other : Nat) record, store.entries.get? key = some other →
      store.heap[other]? = some record → record.refCount = 0 →
      next.entries.get? key = some other ∨
        (next.entries.get? key = none ∧ other = e ∧ (assign record).disposing = true)) :
    Respects key store next where
  heap := by
    intro other record found same
    rw [heap]
    exact Arena.exists_getElem?_modify found
      (fun here => ⟨(kept record).trans same, zero record (here ▸ found) same, begun record⟩)
      fun _ => ⟨same, id, id⟩
  entries := entries
  orphans := fun other bound => .inl (orphans other bound)
  unheld := by
    intro other record bound found idle
    -- An idle live entry stays live, or it is the one that is being disposed of.
    rcases unheld other record bound found idle with live | ⟨gone, rfl, doomed⟩
    · exact .inl live
    · refine .inr ⟨gone, assign record, ?_, doomed⟩
      rw [heap]
      exact Arena.getElem?_modify_self assign found

/-- Assigning fields that no suspended acquire reads respects every key. -/
theorem update (e : EntryId) (assign : Entry κ τ → Entry κ τ)
    (kept : ∀ record, (assign record).key = record.key)
    (zero : ∀ record, record.refCount = 0 → (assign record).refCount = 0)
    (begun : ∀ record, record.disposing = true → (assign record).disposing = true) :
    Respects key store (store.update e assign) :=
  -- Only the fields of one entry are assigned, and no map.
  reassign e assign rfl kept (fun record _ _ => zero record) begun (fun _ => id) (fun _ => id)
    fun _ _ bound _ _ => .inl bound

/-- Condemning an entry respects every key. -/
theorem condemn (e : EntryId) :
    Respects key store (store.update e fun entry => { entry with condemned := true }) :=
  -- No suspended acquire reads that flag.
  update e _ (fun _ => rfl) (fun _ => id) fun _ => id

/-- The waiters of an entry are nothing a suspended acquire reads. -/
theorem setWaiters (e : EntryId) (waiters : Entry κ τ → List DisposalWaitId) :
    Respects key store
      (store.update e fun entry => { entry with disposeWaiters := waiters entry }) :=
  -- Neither key, nor count, nor the flag of the disposal is assigned.
  update e _ (fun _ => rfl) (fun _ => id) fun _ => id

/-- Ending a disposal respects every key. -/
theorem finish (e : EntryId) :
    Respects key store (store.update e fun entry => { entry with disposed := true }) :=
  -- Neither key, nor count, nor the flag that a disposal has begun is assigned.
  update e _ (fun _ => rfl) (fun _ => id) fun _ => id

/-- Taking a reference respects other keys, and its own where the entry was held. -/
theorem checkout (found : store.heap[e]? = some entry)
    (shared : entry.key = key → 0 < entry.refCount) :
    Respects key store (store.checkout e) := by
  -- The count goes up, which only an unheld entry of the key would notice.
  refine reassign e _ (checkout_heap store e) (fun _ => rfl) (fun record present same idle => ?_)
    (fun _ => id) (fun other bound => ?_) (fun other bound => ?_) (fun other record bound _ _ => ?_)
  · cases found.symm.trans present
    have := shared same
    omega
  · simpa using bound
  · simpa using bound
  · exact .inl (by simpa using bound)

/-- Evicting an entry respects every key it is not a stale entry of. -/
theorem evict (wf : store.WellFormed) (found : store.heap[e]? = some entry)
    (current : entry.key = key → store.entries.get? key = some e) :
    Respects key store ((store.unlink e).beginDispose e) := by
  -- What leaves the live map of the key leaves it to be disposed of.
  refine reassign e _ (evict_heap store e) (fun _ => rfl)
    (fun _ _ _ => id) (fun record doomed => by simp [doomed]) (fun other bound => ?_)
    (fun other bound => ?_) (fun other record bound present _ => ?_)
  · rw [evict_entries _ _ found] at bound
    exact (OrderedMap.get?_of_delete bound).2
  · simpa using bound
  · rw [evict_entries _ _ found]
    by_cases same : entry.key = key
    -- The evicted entry is the one the key is bound to, and its disposal has begun.
    · right
      obtain rfl : e = other := Option.some.inj ((current same).symm.trans bound)
      cases found.symm.trans present
      refine ⟨by simp [same], rfl, ?_⟩
      cases ended : entry.disposed with
      | false => simp
      | true => simp [(wf.sound e entry found).ended ended]
    · exact .inl (by rw [OrderedMap.get?_delete_ne _ (Ne.symm same), bound])

/-- Removing an entry by identity and disposing of it respects every key. -/
theorem retire (wf : store.WellFormed) (found : store.heap[e]? = some entry)
    (assign : Entry κ τ → Entry κ τ) (kept : ∀ record, (assign record).key = record.key)
    (zero : ∀ record, record.refCount = 0 → (assign record).refCount = 0)
    (disposing : ∀ record, (assign record).disposing = record.disposing)
    (disposed : ∀ record, (assign record).disposed = record.disposed) :
    Respects key store (((store.update e assign).removeEntry e).beginDispose e) := by
  -- As with eviction, but the bindings go by identity and so need no assumption.
  have assigned : (store.update e assign).heap[e]? = some (assign entry) :=
    Arena.getElem?_modify_self assign found
  refine reassign e _ (retire_heap store e assign) kept
    (fun record _ _ => zero record) (fun record doomed => by simp [disposing, doomed])
    (fun other bound => ?_) (fun other bound => ?_) (fun other record bound present _ => ?_)
  · rw [discard_entries _ _ assigned, OrderedMap.get?_deleteBinding_eq_some] at bound
    exact bound.1
  · rw [beginDispose_orphans, removeEntry_orphans assigned,
      OrderedMap.get?_deleteBinding_eq_some] at bound
    exact bound.1
  · rw [discard_entries _ _ assigned, kept, update_entries]
    by_cases same : key = entry.key ∧ other = e
    · right
      obtain ⟨rfl, rfl⟩ := same
      cases found.symm.trans present
      refine ⟨by simp [OrderedMap.deleteBinding, bound], rfl, ?_⟩
      dsimp only
      rw [disposing, disposed]
      cases ended : entry.disposed with
      | false => simp
      | true => simp [(wf.sound other entry found).ended ended]
    · exact .inl (OrderedMap.get?_deleteBinding_eq_some.mpr ⟨bound, same⟩)

/-- Removing an entry that failed validation respects every key. -/
theorem discard (wf : store.WellFormed) (found : store.heap[e]? = some entry) :
    Respects key store ((store.removeEntry e).beginDispose e) := by
  -- It is the last release of an entry whose fields nobody reassigns.
  have removed : Respects key store (((store.update e id).removeEntry e).beginDispose e) :=
    retire wf found id (fun _ => rfl) (fun _ => id) (fun _ => rfl) fun _ => rfl
  rwa [update_id] at removed

/-- Listing an entry respects every key. -/
theorem free (e : EntryId) (assign : Entry κ τ → Entry κ τ)
    (kept : ∀ record, (assign record).key = record.key)
    (zero : ∀ record, record.refCount = 0 → (assign record).refCount = 0)
    (begun : ∀ record, record.disposing = true → (assign record).disposing = true) :
    Respects key store ((store.update e assign).idleAppend e) :=
  -- The maps are those from before, and the entry is added to the list only.
  reassign e _ (free_heap store e assign) kept (fun record _ _ => zero record) begun
    (fun _ bound => by simpa using bound) (fun _ bound => by simpa using bound)
    fun _ _ bound _ _ => .inl (by simpa using bound)

/-- Inserting an entry respects other keys. -/
theorem insert {other : κ} (resource : τ) (now : Int) (differ : key ≠ other) :
    Respects key store (store.insert other resource now) where
  -- The fresh entry is at a new address and bound to another key.
  heap := by
    intro e record found same
    have less : e < store.heap.length := (List.getElem?_eq_some_iff.mp found).1
    refine ⟨record, ?_, same, id, id⟩
    simp only [Store.insert, idleAppend_heap]
    rw [Arena.getElem?_modify_other _ _ (by omega), Arena.getElem?_push_of_some _ found]
  entries := by
    intro e bound
    simp only [Store.insert, idleAppend_entries] at bound
    rwa [OrderedMap.get?_set_ne _ _ differ] at bound
  orphans := fun e bound => .inl (by simpa [Store.insert] using bound)
  unheld := by
    intro e record bound _ _
    left
    simp only [Store.insert, idleAppend_entries]
    rwa [OrderedMap.get?_set_ne _ _ differ]

/-- Resurrecting an orphan respects other keys. -/
theorem resurrect {other : κ} (e : EntryId) (differ : key ≠ other) :
    Respects key store (store.resurrect other e) where
  -- Both maps are written at another key.
  heap := fun _ record found same => ⟨record, found, same, id, id⟩
  entries := fun third bound => by
    simpa only [Store.resurrect, OrderedMap.get?_set_ne _ _ differ] using bound
  orphans := fun third bound => .inl (OrderedMap.get?_of_delete bound).2
  unheld := fun third record bound _ _ => .inl (by
    simpa only [Store.resurrect, OrderedMap.get?_set_ne _ _ differ] using bound)

/-- Orphaning a held live entry respects every key. -/
theorem orphan (found : store.heap[e]? = some entry)
    (bound : store.entries.get? entry.key = some e) (held : 0 < entry.refCount) :
    Respects key store ((store.deleteKey e).orphan entry.key e) where
  -- The entry is held, and an acquire suspended on the key relies on unheld ones only.
  heap := by
    intro other record present same
    simp only [Store.orphan, update_heap, deleteKey_heap]
    exact Arena.exists_getElem?_modify present (fun _ => ⟨same, id, id⟩) fun _ => ⟨same, id, id⟩
  entries := by
    intro other live
    simp only [Store.orphan, update_entries, deleteKey_entries found] at live
    exact (OrderedMap.get?_of_delete live).2
  orphans := by
    intro other orphaned
    simp only [Store.orphan, deleteKey_orphans, OrderedMap.get?_set] at orphaned
    split at orphaned
    -- The key is the one of the orphaned entry, which was live and held.
    · rename_i same
      cases orphaned
      exact .inr ⟨same ▸ bound, entry, found, held⟩
    · exact .inl orphaned
  unheld := by
    intro other record live present idle
    left
    simp only [Store.orphan, update_entries, deleteKey_entries found]
    rw [OrderedMap.get?_delete_ne _, live]
    rintro rfl
    cases bound.symm.trans live
    cases found.symm.trans present
    omega

/-- Forgetting the idle list respects every key. -/
theorem resetIdle : Respects key store store.resetIdle where
  -- The idle list is nothing that a suspended acquire relies on.
  heap := fun _ record found same => ⟨record, found, same, id, id⟩
  entries := fun _ => id
  orphans := fun _ => .inl
  unheld := fun _ _ bound _ _ => .inl bound

end Respects

end Store

/-- The entry that `obtain` returned and `checkout` has not taken a reference of yet. -/
def Phase.unclaimed : Phase → Option EntryId
  | .returned e => some e
  | _ => none

/-- Exactly a returned entry is unclaimed. -/
theorem Phase.unclaimed_eq_some {phase : Phase} {e : EntryId} :
    phase.unclaimed = some e ↔ phase = .returned e := by
  -- No other phase has an entry that is unclaimed.
  cases phase <;> simp [Phase.unclaimed]

/-- The entry that `obtain` is validating. -/
def Phase.examined : Phase → Option EntryId
  | .validating live => some live
  | _ => none

/-- What a call of `acquire` relies on while it is suspended in a phase. -/
def Phase.Fits (store : Store κ τ) (key : κ) : Phase → Prop
  | .validating live => ∃ entry, store.heap[live]? = some entry ∧ entry.key = key ∧
      entry.refCount = 0 ∧ store.orphans.get? key = none ∧
      (store.entries.get? key = some live ∨
        (store.entries.get? key = none ∧ entry.disposing = true))
  | .discarding live => ∃ entry, store.heap[live]? = some entry ∧ entry.key = key ∧
      entry.disposing = true ∧ store.entries.get? key = none ∧ store.orphans.get? key = none
  | .parked _ | .granted | .creating _ =>
      store.entries.get? key = none ∧ store.orphans.get? key = none
  | .returned e => ∃ entry, store.heap[e]? = some entry ∧ entry.key = key
  | .queued _ | .closing | .threw _ | .fulfilled _ | .rejected _ => True

/-- A key absent from both maps stays absent under operations that respect it. -/
theorem Store.Respects.absent {key : κ} {store next : Store κ τ}
    (respects : Store.Respects key store next)
    (absent : store.entries.get? key = none ∧ store.orphans.get? key = none) :
    next.entries.get? key = none ∧ next.orphans.get? key = none := by
  -- Neither map gains a binding that neither of them had.
  constructor
  · cases bound : next.entries.get? key with
    | none => rfl
    | some e => simp [respects.entries e bound] at absent
  · cases bound : next.orphans.get? key with
    | none => rfl
    | some e =>
      rcases respects.orphans e bound with before | ⟨before, -⟩ <;> simp [before] at absent

/-- A phase that fits still fits after operations that respect its key. -/
theorem Phase.Fits.respected {key : κ} {store next : Store κ τ} {phase : Phase}
    (fits : phase.Fits store key) (respects : Store.Respects key store next) :
    phase.Fits next key := by
  -- Each phase relies on no more than its key's operations of others leave alone.
  cases phase with
  | validating live =>
    obtain ⟨entry, found, same, unheld, unorphaned, bound⟩ := fits
    obtain ⟨after, present, key', zero, begun⟩ := respects.heap live entry found same
    refine ⟨after, present, key', zero unheld, ?_, ?_⟩
    · cases orphaned : next.orphans.get? key with
      | none => rfl
      | some e =>
        -- An orphan is made only of a held live entry, and the examined one is unheld.
        exfalso
        rcases respects.orphans e orphaned with before | ⟨before, record, other, held⟩
        · simp [before] at unorphaned
        -- The key is bound to the examined entry, so that would be the held one.
        · rcases bound with bound | ⟨gone, -⟩
          · cases bound.symm.trans before
            cases found.symm.trans other
            omega
          · simp [before] at gone
    -- The entry stays live or leaves the map with its disposal begun.
    · rcases bound with bound | ⟨gone, doomed⟩
      · rcases respects.unheld live entry bound found unheld with
          live | ⟨gone, record, other, doomed⟩
        · exact .inl live
        · cases present.symm.trans other
          exact .inr ⟨gone, doomed⟩
      · refine .inr ⟨?_, begun doomed⟩
        cases later : next.entries.get? key with
        | none => rfl
        | some e => simp [respects.entries e later] at gone
  | discarding live =>
    obtain ⟨entry, found, same, doomed, absent⟩ := fits
    obtain ⟨after, present, key', -, begun⟩ := respects.heap live entry found same
    exact ⟨after, present, key', begun doomed, respects.absent absent⟩
  | parked _ | granted | creating _ => exact respects.absent fits
  | returned e =>
    obtain ⟨entry, found, same⟩ := fits
    obtain ⟨after, present, key', -⟩ := respects.heap e entry found same
    exact ⟨after, present, key'⟩
  | queued _ | closing | threw _ | fulfilled _ | rejected _ => trivial

/-- An entry that fails validation leaves its key absent from both maps. -/
theorem Phase.Fits.refuted {key : κ} {store : Store κ τ} {live : EntryId}
    (wf : store.WellFormed) (fits : (Phase.validating live).Fits store key) :
    (Phase.discarding live).Fits ((store.removeEntry live).beginDispose live) key := by
  -- The entry is removed by identity, and its disposal has begun if nobody else began it.
  obtain ⟨entry, found, same, unheld, unorphaned, bound⟩ := fits
  have removed := Store.removeEntry_found _ _ found
  refine ⟨_, Store.beginDispose_doomed _ live removed (wf.sound live entry found).ended, same,
    rfl, ?_, ?_⟩
  · -- The live map held the entry itself or nothing.
    rw [Store.discard_entries _ _ found, same]
    rcases bound with bound | ⟨gone, -⟩
    · rw [OrderedMap.deleteBinding, if_pos bound, OrderedMap.get?_delete_self]
    · exact OrderedMap.get?_deleteBinding_eq_none gone
  · rw [Store.beginDispose_orphans, Store.removeEntry_orphans found]
    exact OrderedMap.get?_deleteBinding_eq_none unorphaned

/-- Only a running phase relies on anything. -/
theorem Phase.Fits.idle {key : κ} {store : Store κ τ} {phase : Phase}
    (idle : phase.stage ≠ .running) : phase.Fits store key := by
  -- For every other phase there is nothing to show.
  cases phase <;> trivial

/-- Every call of `acquire` has what it relies on. -/
def Phases (store : Store κ τ) (acquires : List (Acquire κ)) : Prop :=
  ∀ (a : Nat) acquire, acquires[a]? = some acquire → acquire.phase.Fits store acquire.key

namespace Phases

variable {store next : Store κ τ} {acquires : List (Acquire κ)}

/-- An operation that respects every marked key leaves every call with what it relies on. -/
theorem of_respects {keys : KeyState κ} (phases : Phases store acquires)
    (chained : Chained keys (acquires.map Acquire.slot))
    (respects : ∀ key, keys.isPending key = true → Store.Respects key store next) :
    Phases next acquires := by
  -- A running call keeps its key marked, and the others rely on nothing.
  intro a acquire called
  by_cases running : acquire.phase.stage = .running
  · refine (phases a acquire called).respected (respects acquire.key ?_)
    exact chained.pending_of_open (slot_of_called called)
      (by simp [Slot.isOpen, Acquire.slot, running])
  · exact Phase.Fits.idle running

/-- A new call that has not run yet relies on nothing. -/
theorem push (phases : Phases store acquires) {acquire : Acquire κ}
    (idle : acquire.phase.stage ≠ .running) : Phases store (acquires ++ [acquire]) := by
  -- The older calls are where they were.
  intro a other called
  rcases Arena.getElem?_push_cases called with ⟨-, rfl⟩ | before
  · exact Phase.Fits.idle idle
  · exact phases a other before

/-- One call moves to another phase while the others, on other keys, are respected. -/
theorem move (phases : Phases store acquires) {a : Nat} {acquire : Acquire κ} {phase : Phase}
    (called : acquires[a]? = some acquire) (fits : phase.Fits next acquire.key)
    (alone : ∀ (b : Nat) other, a ≠ b → acquires[b]? = some other →
      other.phase.stage = .running → other.key ≠ acquire.key)
    (respects : ∀ key, key ≠ acquire.key →
      (∃ (b : Nat) (other : Acquire κ), acquires[b]? = some other ∧ other.key = key ∧
        other.phase.stage = .running) → Store.Respects key store next) :
    Phases next (acquires.modify a fun acquire => { acquire with phase }) := by
  -- Two calls of one key do not run at once, so the others run on other keys.
  intro b other read
  rcases Arena.getElem?_modify_cases read with ⟨rfl, old, before, rfl⟩ | ⟨differ, before⟩
  · cases called.symm.trans before
    exact fits
  · by_cases running : other.phase.stage = .running
    · exact (phases b other before).respected
        (respects other.key (alone b other differ before running) ⟨b, other, before, rfl, running⟩)
    · exact Phase.Fits.idle running

end Phases

end RefPool
