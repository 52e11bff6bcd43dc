import RefPool.Proofs.Ready
import RefPool.Proofs.IdleList

/-! Before the first drain nothing is condemned, and nobody holds what is being disposed of. -/

namespace RefPool

variable {κ τ : Type}

/-- The entry that a call validates or is about to check out. -/
def Phase.claimed : Phase → Option EntryId
  | .validating e | .returned e => some e
  | _ => none

/-- What holds of every entry before the first drain. -/
structure Entry.Undrained (entry : Entry κ τ) : Prop where
  kept : entry.condemned = false
  unheld : entry.disposing = true → entry.refCount = 0

/-- What a call validates or returned is a claim. -/
theorem claims_claimed : Claims Phase.claimed where
  -- Both kinds of phase that claim an entry are listed.
  returned := fun _ => rfl
  within := fun phase e claimed => by cases phase <;> simp_all [Phase.claimed]

/-- What holds of the entries and the calls before the first drain. -/
structure Undrained (heap : List (Entry κ τ)) (acquires : List (Acquire κ)) : Prop where
  entries : ∀ entry ∈ heap, entry.Undrained
  ready : Ready Phase.claimed heap acquires

/-- Reassigning one entry keeps the others as they were before the first drain. -/
theorem undrained_reassign {heap : List (Entry κ τ)} {e : EntryId}
    {assign : Entry κ τ → Entry κ τ} (entries : ∀ entry ∈ heap, entry.Undrained)
    (own : ∀ entry, heap[e]? = some entry → entry.Undrained → (assign entry).Undrained) :
    ∀ entry ∈ heap.modify e assign, entry.Undrained := by
  -- What reads the reassigned heap is the new record, or an old one at another place.
  intro entry inside
  obtain ⟨i, read⟩ := List.mem_iff_getElem?.mp inside
  rcases Arena.getElem?_modify_cases read with ⟨rfl, old, before, rfl⟩ | ⟨-, before⟩
  · exact own old before (entries old (List.mem_of_getElem? before))
  · exact entries entry (List.mem_of_getElem? before)

namespace State

variable [DecidableEq κ] {options : PoolOptions} {s next : State κ τ} {e : EntryId}

/-- Evicting an entry that nobody holds condemns nothing. -/
theorem undrained_evict (entries : ∀ entry ∈ s.heap, entry.Undrained)
    (unheld : ∀ entry, s.heap[e]? = some entry → entry.refCount = 0) :
    ∀ entry ∈ ((s.toStore.unlink e).beginDispose e).heap, entry.Undrained := by
  -- Only the flags of a disposal go up, on an entry without holders.
  rw [Store.evict_heap]
  exact undrained_reassign entries fun entry found before =>
    ⟨before.kept, fun _ => unheld entry found⟩

/-- A turn of the reservation loop condemns nothing. -/
theorem SlotEffect.undrained {a : AcquireId} (effect : SlotEffect options s a next)
    (wf : s.toStore.WellFormed) (entries : ∀ entry ∈ s.heap, entry.Undrained) :
    ∀ entry ∈ next.heap, entry.Undrained := by
  -- Only an eviction touches an entry, and what is listed is held by nobody.
  cases effect with
  | evicted victim _ _ _ listed =>
    exact undrained_evict entries fun entry found => wf.unheld_of_listed listed found
  | unbounded | refused | reserved | exhausted | parked => exact entries

/-- `obtain` from the orphan lookup on condemns nothing. -/
theorem MissEffect.undrained {a : AcquireId} {key : κ} (effect : MissEffect options s a key next)
    (wf : s.toStore.WellFormed) (entries : ∀ entry ∈ s.heap, entry.Undrained) :
    ∀ entry ∈ next.heap, entry.Undrained := by
  -- Only the reservation loop remains to be looked at.
  cases effect with
  | resurrected | refused => exact entries
  | slot _ _ _ effect => exact effect.undrained wf entries

/-- Dropping a reference condemns nothing. -/
theorem ReleaseEffect.undrained (effect : ReleaseEffect s e next)
    (entries : ∀ entry ∈ s.heap, entry.Undrained) : ∀ entry ∈ next.heap, entry.Undrained := by
  -- Releases count down and may dispose of the entry, yet none of them condemns it.
  cases effect with
  | ignored => exact entries
  | dropped =>
    exact undrained_reassign entries fun entry _ before =>
      ⟨before.kept, fun begun => by simp [before.unheld begun]⟩
  | retired entry found undisposed last =>
    show ∀ entry ∈ ((((s.dropReference e).stampReleased e).toStore.removeEntry e).beginDispose
      e).heap, entry.Undrained
    rw [stampReleased_dropReference, Store.retire_heap]
    refine undrained_reassign entries fun record present before => ⟨before.kept, fun _ => ?_⟩
    cases found.symm.trans present
    simp [lastDrop, last]
  | freed entry found undisposed last =>
    show ∀ entry ∈ (((s.dropReference e).stampReleased e).toStore.idleAppend e).heap,
      entry.Undrained
    rw [stampReleased_dropReference, Store.free_heap]
    refine undrained_reassign entries fun record present before => ⟨before.kept, fun _ => ?_⟩
    cases found.symm.trans present
    simp [lastDrop, last]

omit [DecidableEq κ] in
/-- Taking a reference of an entry that is not being disposed of condemns nothing. -/
theorem undrained_checkout (entries : ∀ entry ∈ s.heap, entry.Undrained)
    (fresh : ∀ entry, s.heap[e]? = some entry → entry.disposing = false) :
    ∀ entry ∈ (s.toStore.checkout e).heap, entry.Undrained := by
  -- The count goes up where no disposal has begun.
  rw [Store.checkout_heap]
  exact undrained_reassign entries fun entry found before =>
    ⟨before.kept, fun begun => by simp [fresh entry found] at begun⟩

/-- Before the first drain no step condemns an entry or disposes of one that is held. -/
theorem Effect.undrainedEntries {action : Action κ τ} (core : Core s)
    (effect : Effect options s action next) (undrained : Undrained s.heap s.acquires)
    (opened : action ≠ .drain ∧ action ≠ .stop) : ∀ entry ∈ next.heap, entry.Undrained := by
  -- Only checkouts add a reference, and only disposals raise the flag that forbids holders.
  have wf := core.store
  have entries := undrained.entries
  cases effect with
  | shared key e entry bound found =>
    refine undrained_checkout entries fun record present => ?_
    cases found.symm.trans present
    exact (wf.live_at bound found).undisposed
  | delivered a acquire e called phase =>
    obtain ⟨entry, found, fresh⟩ := undrained.ready a acquire e called (by rw [phase]; rfl)
    refine undrained_checkout entries fun record present => ?_
    cases found.symm.trans present
    exact fresh
  | released h handle next found holding effect => exact effect.undrained entries
  | releasedKey key e next bound effect => exact effect.undrained entries
  -- No label drains before the first drain.
  | drain => exact absurd rfl opened.1
  | stop => exact absurd rfl opened.2
  -- Each eviction of the sweep finds its entry on the idle list.
  | sweep =>
    refine (sweep_rule options (P := fun next => ∀ entry ∈ next.heap, entry.Undrained) wf ?_
      (fun _ _ => id) entries).2
    intro next node entry wf entries found listed _
    exact undrained_evict entries fun record present => wf.unheld_of_listed listed present
  | missed a acquire after next called phase turn absent effect =>
    exact effect.undrained wf entries
  | discarded a acquire live next called phase effect => exact effect.undrained wf entries
  | resumed a acquire w waiter next called phase found woken effect =>
    exact effect.undrained wf entries
  -- The refuted entry was live and is held by nobody.
  | refuted a acquire live called phase =>
    obtain ⟨entry, found, -, unheld, -⟩ := core.fits called phase
    show ∀ entry ∈ ((s.toStore.removeEntry live).beginDispose live).heap, entry.Undrained
    rw [Store.discard_heap]
    refine undrained_reassign entries fun record present before => ⟨before.kept, fun _ => ?_⟩
    cases found.symm.trans present
    exact unheld
  -- A new entry starts without holder, neither condemned nor disposed of.
  | inserted x exec resource =>
    intro entry inside
    have inside : entry ∈ (s.toStore.insert exec.key resource s.now).heap := inside
    rw [Store.insert_heap] at inside
    rcases List.mem_append.mp inside with before | new
    · exact entries entry before
    · rw [List.mem_singleton.mp new]
      exact ⟨rfl, fun _ => rfl⟩
  | disposeSettled e =>
    rw [finishDispose_heap]
    exact undrained_reassign entries fun entry _ before => ⟨before.kept, before.unheld⟩
  | queued | releasedAgain | releasedNone | start | gcKeyState | emitStats | timeout | clock
  | validating | returned | abandoned | breakerless | creating | failed | drained | unvalidated
  | passed | factoryCalled | factorySettled | execRejected | execLate | lateDisposeSettled
  | breakerChanged => exact entries

/-- Until the first drain every step leaves entries and calls as they are before it. -/
theorem Effect.undrained {action : Action κ τ} (core : Core s)
    (effect : Effect options s action next) (undrained : Undrained s.heap s.acquires)
    (opened : action ≠ .drain ∧ action ≠ .stop) : Undrained next.heap next.acquires where
  entries := effect.undrainedEntries core undrained opened
  ready := by
    refine effect.ready core claims_claimed undrained.ready
      (fun a acquire e entry called claimed found disturbs => ?_)
      fun a acquire live _ called phase =>
        undrained.ready a acquire live called (by rw [phase]; rfl)
    -- A claim would be disturbed only by a drain, or by the eviction of a condemned entry.
    rcases disturbs with ⟨closing | closing, -⟩ | ⟨-, condemned, -⟩
    · exact opened.1 closing
    · exact opened.2 closing
    · simp [(undrained.entries entry (List.mem_of_getElem? found)).kept] at condemned

/-- No key of a pool that was never drained is orphaned. -/
theorem unorphaned_of_undrained (wf : s.toStore.WellFormed)
    (undrained : Undrained s.heap s.acquires) (key : κ) : s.orphans.get? key = none := by
  -- An orphan is condemned, and only a drain condemns.
  cases bound : s.orphans.get? key with
  | none => rfl
  | some e =>
    obtain ⟨entry, found, promised⟩ := wf.orphaned key e bound
    have kept := (undrained.entries entry (List.mem_of_getElem? found)).kept
    rw [promised.condemned] at kept
    cases kept

/-- Before the first drain there are no orphans. -/
theorem size_orphans_of_undrained (wf : s.toStore.WellFormed)
    (undrained : Undrained s.heap s.acquires) : s.orphans.size = 0 :=
  -- A map of no size is one without items.
  List.length_eq_zero_iff.mpr
    (OrderedMap.items_eq_nil_iff.mpr (unorphaned_of_undrained wf undrained))

omit [DecidableEq κ] in
/-- Before the first drain no release revives an entry. -/
theorem noRevival_of_undrained (undrained : Undrained s.heap s.acquires) (action : Action κ τ) :
    s.NoRevival action := by
  -- A revival drops the last reference of an entry that is being disposed of while it is held.
  cases action with
  | releaseHandle h =>
    intro handle _ _
    rw [revives, Option.any_eq_false]
    intro entry found
    have unheld := (undrained.entries entry (List.mem_of_getElem? found)).unheld
    rw [decide_eq_false_iff_not]
    rintro ⟨last, -, begun, -⟩
    have := unheld begun
    omega
  | _ => trivial

omit [DecidableEq κ] in
/-- A new pool has neither entries nor calls. -/
theorem undrained_init (options : PoolOptions) :
    Undrained (init options : State κ τ).heap (init options : State κ τ).acquires :=
  -- There is nothing to look at.
  ⟨by simp [init, Store.empty], by simp [Ready, init]⟩

/-- A run without drains ends in an exact store. -/
theorem exact_of_undrained {actions : List (Action κ τ)}
    (opened : ∀ action ∈ actions, action ≠ .drain ∧ action ≠ .stop)
    (ran : Runs.run (step options) (init options) actions = some s) : s.toStore.Exact := by
  -- Nothing is condemned along the run, so that no release of it revives an entry.
  have invariant := (Runs.guarded_of_forall opened).run_invariant
    (fun s : State κ τ => Core s ∧ Undrained s.heap s.acquires ∧ s.toStore.Exact)
    (fun s action next ⟨core, undrained, accurate⟩ open' stepped =>
      ⟨core_step core stepped, (step_effect stepped).undrained core undrained open',
        (step_effect stepped).exact core (noRevival_of_undrained undrained action) accurate⟩)
    ⟨core_init options, undrained_init options, Store.exact_empty⟩ ran
  exact invariant.2.2

end State

end RefPool
