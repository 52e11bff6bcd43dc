import RefPool.Proofs.IdleList
import RefPool.Proofs.Ledger

/-! No resource is lost: what is not being disposed of stays bound to its key, and is counted. -/

namespace RefPool.State

variable {κ τ : Type} [DecidableEq κ] {options : PoolOptions} {s : State κ τ}

/-- Every inserted resource is bound to its key until its disposal begins, and is counted. -/
structure Conserved (s : State κ τ) : Prop where
  /-- Each undisposed entry is in exactly one of the two maps, under its own key. -/
  bound : ∀ (e : Nat) entry, s.heap[e]? = some entry → entry.disposing = false →
    (s.entries.get? entry.key = some e ↔ s.orphans.get? entry.key ≠ some e)
  inserted : s.counters.created = s.heap.length
  counted : s.counters.created = s.counters.disposed + s.getStats.live +
    s.heap.countP fun entry => entry.disposing && !entry.disposed

/-- Whether every resource is bound and counted can be checked. -/
instance (s : State κ τ) : Decidable s.Conserved :=
  decidable_of_iff
    ((∀ (e : Nat) entry, s.heap[e]? = some entry → entry.disposing = false →
        (s.entries.get? entry.key = some e ↔ s.orphans.get? entry.key ≠ some e)) ∧
      s.counters.created = s.heap.length ∧
      s.counters.created = s.counters.disposed + s.getStats.live +
        s.heap.countP fun entry => entry.disposing && !entry.disposed)
    ⟨fun ⟨bound, inserted, counted⟩ => ⟨bound, inserted, counted⟩,
      fun ⟨bound, inserted, counted⟩ => ⟨bound, inserted, counted⟩⟩

/-- The two maps bind different entries. -/
theorem nodup_bound (wf : s.toStore.WellFormed) :
    (s.entries.values ++ s.orphans.values).Nodup := by
  -- A key is live or orphaned, and an entry has one key.
  refine List.nodup_append.mpr ⟨wf.nodup_entries, wf.nodup_orphans, ?_⟩
  rintro e live _ orphaned rfl
  obtain ⟨key, bound⟩ := OrderedMap.mem_values.mp live
  obtain ⟨other, bound'⟩ := OrderedMap.mem_values.mp orphaned
  obtain ⟨entry, found, promised⟩ := wf.live key e bound
  obtain rfl := promised.key.symm.trans (wf.orphaned_at bound' found).key
  simp [wf.apart _ e bound] at bound'

/-- In an exact store the two maps bind exactly the entries whose disposal has not begun. -/
theorem mem_bound (wf : s.toStore.WellFormed) (accurate : s.toStore.Exact) (e : EntryId) :
    e ∈ s.entries.values ++ s.orphans.values ↔
      s.heap[e]?.any (fun entry => !entry.disposing) = true := by
  -- Neither map binds an entry being disposed of, and an exact store binds all the others.
  rw [List.mem_append, OrderedMap.mem_values, OrderedMap.mem_values]
  constructor
  · rintro (⟨key, bound⟩ | ⟨key, bound⟩)
    · obtain ⟨entry, found, promised⟩ := wf.live key e bound
      simp [found, promised.undisposed]
    · obtain ⟨entry, found, promised⟩ := wf.orphaned key e bound
      simp [found, promised.undisposed]
  · intro undisposed
    obtain ⟨entry, found, fresh⟩ := Option.any_eq_true _ _ |>.mp undisposed
    rcases (accurate.each e entry found).kept (by simpa using fresh) with bound | bound
    · exact .inl ⟨entry.key, bound⟩
    · exact .inr ⟨entry.key, bound⟩

/-- In an exact store the two maps are as large as there are entries not being disposed of. -/
theorem size_bound (wf : s.toStore.WellFormed) (accurate : s.toStore.Exact) :
    s.entries.size + s.orphans.size = s.heap.countP fun entry => !entry.disposing := by
  -- The bound entries and the addresses of the undisposed ones are the same, each once.
  have same : (s.entries.values ++ s.orphans.values).Perm ((List.range s.heap.length).filter
      fun e => s.heap[e]?.any fun entry => !entry.disposing) := by
    refine (List.perm_ext_iff_of_nodup (nodup_bound wf) (List.nodup_range.filter _)).mpr
      fun e => ?_
    rw [mem_bound wf accurate, List.mem_filter, List.mem_range]
    refine ⟨fun undisposed => ⟨?_, undisposed⟩, And.right⟩
    obtain ⟨entry, found, -⟩ := Option.any_eq_true _ _ |>.mp undisposed
    exact (List.getElem?_eq_some_iff.mp found).1
  have length := same.length_eq
  rw [← List.countP_eq_length_filter, Arena.countP_range, List.length_append] at length
  simpa [OrderedMap.values, OrderedMap.size] using length

/-- Every entry is undisposed, being disposed of, or disposed. -/
theorem length_heap (wf : s.toStore.WellFormed) :
    s.heap.length = s.heap.countP Entry.disposed +
      s.heap.countP (fun entry => !entry.disposing) +
      s.heap.countP fun entry => entry.disposing && !entry.disposed := by
  -- A disposed entry has been through its disposal, so the three cases exclude each other.
  have sound : ∀ entry ∈ s.heap, entry.Sound := fun entry inside => by
    obtain ⟨e, found⟩ := List.mem_iff_getElem?.mp inside
    exact wf.sound e entry found
  generalize s.heap = heap at sound
  induction heap with
  | nil => rfl
  | cons head tail ih =>
    have rest := ih fun entry inside => sound entry (List.mem_cons_of_mem _ inside)
    have ended := (sound head List.mem_cons_self).ended
    simp only [List.length_cons, List.countP_cons]
    cases started : head.disposing <;> cases final : head.disposed <;> simp_all <;> omega

/-- An exact store whose ledger is kept loses nothing. -/
theorem conserved_of_exact (wf : s.toStore.WellFormed) (accurate : s.toStore.Exact)
    (ledger : Ledger s) : s.Conserved where
  bound := by
    intro e entry found fresh
    rcases (accurate.each e entry found).kept fresh with bound | bound
    · simp [bound, wf.apart _ e bound]
    · simp [bound, wf.not_live_of_orphaned bound]
  inserted := ledger.created
  -- The three kinds of entries add up to the heap, and the maps bind the first kind.
  counted := by
    have size := size_bound wf accurate
    have length := length_heap wf
    have created := ledger.created
    have disposed := ledger.disposed
    simp only [getStats]
    omega

/-- While no handle revives an entry being disposed of, no resource is lost. -/
theorem conserved_throughout (options : PoolOptions) (actions : List (Action κ τ))
    (dead : Runs.Guarded (step options) NoRevival (init options) actions) :
    Runs.Throughout (step options) Conserved (init options) actions := by
  -- The exact store and the ledger are kept side by side.
  have kept := dead.throughout (fun s => Core s ∧ s.toStore.Exact ∧ Ledger s)
    (fun s action next ⟨core, accurate, ledger⟩ met stepped =>
      ⟨core_step core stepped, (step_effect stepped).exact core met accurate,
        (step_effect stepped).ledger core.store ledger⟩)
    ⟨core_init options, Store.exact_empty, ledger_init options⟩
  exact kept.mono fun s ⟨core, accurate, ledger⟩ => conserved_of_exact core.store accurate ledger

/-- A run that drains a held entry, opens again, and creates its key anew. -/
theorem conserved_throughout_reopened :
    let options : PoolOptions := { max := 1 }
    let create (a : Nat) : List (Action Nat Nat) :=
      [.acquire 7, .obtain a, .create a .threw, .factoryCalled a, .factorySettled a (some a),
        .execSettled a (some a), .deliver a]
    Runs.Throughout (step options) Conserved (init options)
      (create 0 ++ [.drain, .releaseHandle 0, .disposeSettled 0, .start] ++ create 1) :=
  -- The handle is released before the pool opens again, so no entry is revived.
  conserved_throughout _ _ (by decide)

/-- An entry revived after a drain makes its key's next resource be forgotten while held. -/
theorem conserved_revived :
    let options : PoolOptions := { max := 1, validate := true }
    let create (a x : Nat) : List (Action Nat Nat) :=
      [.acquire 7, .obtain a, .create a .threw, .factoryCalled x, .factorySettled x (some x),
        .execSettled x (some x), .deliver a]
    ¬ Runs.Throughout (step options) Conserved (init options)
      (create 0 0 ++ [.releaseHandle 0, .acquire 7, .obtain 1, .drain, .validated 1 (some true),
        .deliver 1, .start] ++ create 2 1 ++ [.releaseHandle 1, .acquire 8, .obtain 3]) := by
  -- The revived entry takes its key's binding with it when it is evicted.
  decide

end RefPool.State
