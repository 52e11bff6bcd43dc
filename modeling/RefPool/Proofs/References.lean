import RefPool.Proofs.Frame
import RefPool.Proofs.History

/-! Reference counts agree with the handles in the hands of callers. -/

namespace RefPool

variable {κ τ : Type}

/-- The handles issued on an entry whose `release` has not been called. -/
def outstanding (handles : List Handle) (e : EntryId) : Nat :=
  handles.countP fun handle => !handle.released && decide (handle.entry = e)

/-- Issuing a handle adds one to the handles out on its entry. -/
theorem outstanding_issue (handles : List Handle) (e other : EntryId) :
    outstanding (handles ++ [{ entry := e, released := false }]) other =
      outstanding handles other + if e = other then 1 else 0 := by
  -- The new handle is out, and on that entry.
  simp [outstanding, List.countP_append, List.countP_singleton]

/-- Releasing a handle takes one from the handles out on its entry. -/
theorem outstanding_release {handles : List Handle} {h : HandleId} {handle : Handle}
    (found : handles[h]? = some handle) (holding : handle.released = false) (e : EntryId) :
    outstanding (handles.modify h fun handle => { handle with released := true }) e +
      (if handle.entry = e then 1 else 0) = outstanding handles e := by
  -- The handle was counted on its entry and is not any more.
  have moved := Arena.countP_modify (fun handle : Handle => { handle with released := true })
    (fun handle => !handle.released && decide (handle.entry = e)) found
  simp only [holding, Bool.not_false, Bool.true_and, decide_eq_true_eq, Bool.not_true,
    Bool.false_and, Bool.false_eq_true, if_false, Nat.add_zero] at moved
  exact moved

/-- A way to compare a reference count with the handles out that taking and dropping respect. -/
structure Comparison (r : Nat → Nat → Prop) : Prop where
  none : r 0 0
  taken : ∀ n m, r n m → r (n + 1) (m + 1)
  dropped : ∀ n m, r (n + 1) (m + 1) → r n m
  spent : ∀ m, r 0 (m + 1) → r 0 m

/-- Counts can be compared for equality. -/
theorem comparison_eq : Comparison (· = ·) where
  -- Each law adds or takes the same on both sides.
  none := rfl
  taken := by omega
  dropped := by omega
  spent := by omega

/-- Counts can be bounded by the handles out. -/
theorem comparison_le : Comparison (· ≤ ·) where
  -- Each law adds or takes the same on both sides.
  none := Nat.le_refl 0
  taken := by omega
  dropped := by omega
  spent := by omega

/-- The counts of the undisposed entries compare with the handles out on them. -/
structure Counted (r : Nat → Nat → Prop) (heap : List (Entry κ τ)) (handles : List Handle) :
    Prop where
  issued : ∀ handle ∈ handles, handle.entry < heap.length
  counts : ∀ (e : Nat) entry, heap[e]? = some entry → entry.disposed = false →
    r entry.refCount (outstanding handles e)

/-- Whether the count of an entry matters: always, or until the entry is disposed of. -/
def Entry.Matters (always : Bool) (entry : Entry κ τ) : Prop :=
  always = true ∨ entry.disposed = false

/-- The counts of the entries that matter compare with a number of handles for each entry. -/
structure Compared (r : Nat → Nat → Prop) (always : Bool) (heap : List (Entry κ τ))
    (handles : List Handle) (count : EntryId → Nat) : Prop where
  issued : ∀ handle ∈ handles, handle.entry < heap.length
  counts : ∀ (e : Nat) entry, heap[e]? = some entry → entry.Matters always →
    r entry.refCount (count e)

variable [DecidableEq κ]

namespace Compared

variable {r : Nat → Nat → Prop} {always : Bool} {store next : Store κ τ} {handles : List Handle}
  {count count' : EntryId → Nat} {e : EntryId} {entry : Entry κ τ}

omit [DecidableEq κ] in
/-- Steps that keep all references keep the comparison. -/
theorem kept (compared : Compared r always store.heap handles count) (kept : store.Kept next) :
    Compared r always next.heap handles count where
  -- An entry that matters now did so before, with the same count.
  issued := fun handle issued => kept.length ▸ compared.issued handle issued
  counts := by
    intro e after found matters
    obtain ⟨entry, before, same⟩ := kept.exists_before found
    rw [same.refCount]
    refine compared.counts e entry before (matters.imp_right fun undisposed => ?_)
    cases ended : entry.disposed with
    | false => rfl
    | true => simp [same.disposed ended] at undisposed

omit [DecidableEq κ] in
/-- A checkout takes one reference for the handle it issues. -/
theorem checkout (compared : Compared r always store.heap handles count)
    (comparison : Comparison r) (found : store.heap[e]? = some entry)
    (more : ∀ other, count' other = count other + if e = other then 1 else 0) :
    Compared r always (store.checkout e).heap (handles ++ [{ entry := e, released := false }])
      count' where
  issued := by
    intro handle issued
    rw [Store.checkout_heap, List.length_modify]
    rcases List.mem_append.mp issued with before | new
    · exact compared.issued handle before
    -- The new handle is on the entry checked out, which is in the heap.
    · rw [List.mem_singleton.mp new]
      exact (List.getElem?_eq_some_iff.mp found).1
  counts := by
    intro other after read matters
    rw [more]
    rw [Store.checkout_heap] at read
    -- The entry gains one reference and one handle, and the others gain neither.
    rcases Arena.getElem?_modify_cases read with ⟨rfl, old, before, rfl⟩ | ⟨differ, before⟩
    · simpa using comparison.taken _ _ (compared.counts e old before matters)
    · simpa [differ] using compared.counts other after before matters

/-- A fresh entry is held by nobody. -/
theorem insert (compared : Compared r always store.heap handles count)
    (comparison : Comparison r) (unheld : count store.heap.length = 0) (key : κ) (resource : τ)
    (now : Int) : Compared r always (store.insert key resource now).heap handles count where
  issued := fun handle issued =>
    Nat.lt_of_lt_of_le (compared.issued handle issued)
      (State.grows_insert store key resource now).length
  counts := by
    intro e after found matters
    -- Nobody holds the new entry, and no other one changes.
    by_cases new : e = store.heap.length
    · subst new
      rw [State.insert_heap_new, Option.some.injEq] at found
      rw [unheld, ← found]
      exact comparison.none
    · rw [State.insert_heap_other store key resource now new] at found
      exact compared.counts e after found matters

omit [DecidableEq κ] in
/-- Raising the flag of a handle moves it to no other entry. -/
theorem mark {heap : List (Entry κ τ)} (compared : Compared r always heap handles count)
    (h : HandleId) : Compared r always heap
      (handles.modify h fun handle => { handle with released := true }) count where
  issued := by
    intro other inside
    obtain ⟨i, read⟩ := List.mem_iff_getElem?.mp inside
    -- Marking a handle leaves it with its entry.
    rcases Arena.getElem?_modify_cases read with ⟨-, old, before, rfl⟩ | ⟨-, before⟩
    · exact compared.issued old (List.mem_of_getElem? before)
    · exact compared.issued other (List.mem_of_getElem? before)
  counts := compared.counts

/-- Dropping a reference for a handle that is counted no more. -/
theorem release {s next : State κ τ} (effect : State.ReleaseEffect s e next)
    (compared : Compared r always s.heap handles count) (comparison : Comparison r)
    (fewer : ∀ other, count' other + (if e = other then 1 else 0) = count other)
    (inTime : ∀ entry, s.heap[e]? = some entry → entry.Matters always →
      entry.disposed = true → entry.refCount = 0) :
    Compared r always next.heap handles count' := by
  -- The entry of the handle loses one handle, the others lose none.
  have away {other : EntryId} (differ : e ≠ other) : count' other = count other := by
    simpa [differ] using fewer other
  have here := fewer e
  rw [if_pos rfl] at here
  rcases effect.heap with ⟨spent, rfl⟩ |
    ⟨entry, assign, present, undisposed, held, heap, -, still, less⟩
  · refine ⟨compared.issued, fun i record read matters => ?_⟩
    have before := compared.counts i record read matters
    by_cases same : e = i
    · -- Nothing was counted for the handle any more.
      subst same
      have unheld : record.refCount = 0 :=
        (spent record read).elim (inTime record read matters) id
      rw [← here, unheld] at before
      rw [unheld]
      exact comparison.spent _ before
    · exact away same ▸ before
  · refine ⟨fun handle inside => ?_, fun i record read matters => ?_⟩
    · rw [heap, List.length_modify]
      exact compared.issued handle inside
    · rw [heap] at read
      rcases Arena.getElem?_modify_cases read with ⟨rfl, old, before, rfl⟩ | ⟨differ, before⟩
      · cases present.symm.trans before
        have counts := compared.counts _ entry present (.inr undisposed)
        rw [← here, show entry.refCount = entry.refCount - 1 + 1 by omega] at counts
        rw [less]
        exact comparison.dropped _ _ counts
      · exact away differ ▸ compared.counts i record before matters

/-- Dropping a reference without a handle loosens the comparison. -/
theorem releaseKey {s next : State κ τ} (effect : State.ReleaseEffect s e next)
    (compared : Compared r always s.heap handles count) (loose : ∀ n m, r (n + 1) m → r n m) :
    Compared r always next.heap handles count := by
  -- The count goes down while the handles stay.
  rcases effect.heap with ⟨-, rfl⟩ |
    ⟨entry, assign, present, undisposed, held, heap, -, still, less⟩
  · exact compared
  · refine ⟨fun handle inside => ?_, fun other record read matters => ?_⟩
    · rw [heap, List.length_modify]
      exact compared.issued handle inside
    · rw [heap] at read
      rcases Arena.getElem?_modify_cases read with ⟨rfl, old, before, rfl⟩ | ⟨-, before⟩
      · cases present.symm.trans before
        have counts := compared.counts _ entry present (.inr undisposed)
        rw [show entry.refCount = entry.refCount - 1 + 1 by omega] at counts
        rw [less]
        exact loose _ _ counts
      · exact compared.counts other record before matters

end Compared

namespace Counted

variable {r : Nat → Nat → Prop} {heap : List (Entry κ τ)} {handles : List Handle} {e : EntryId}

omit [DecidableEq κ] in
/-- The counts that matter are those of the undisposed entries. -/
theorem iff_compared : Counted r heap handles ↔
    Compared r false heap handles (outstanding handles) := by
  -- The flag for all entries is down, so only the undisposed ones are left.
  constructor
  · exact fun counted => ⟨counted.issued, fun e entry found matters =>
      counted.counts e entry found (matters.resolve_left Bool.false_ne_true)⟩
  · exact fun compared => ⟨compared.issued, fun e entry found undisposed =>
      compared.counts e entry found (.inr undisposed)⟩

omit [DecidableEq κ] in
/-- While no handle is out nobody holds an entry whose disposal has not ended. -/
theorem unheld_of_released {entry : Entry κ τ} (counted : Counted (· ≤ ·) heap handles)
    (released : ∀ handle ∈ handles, handle.released = true) (found : heap[e]? = some entry)
    (undisposed : entry.disposed = false) : entry.refCount = 0 := by
  -- The references are at most the handles that are out, of which there are none.
  have none : outstanding handles e = 0 :=
    List.countP_eq_zero.mpr fun handle inside => by simp [released handle inside]
  have counts := counted.counts e entry found undisposed
  omega

end Counted

namespace State

variable {options : PoolOptions} {s next : State κ τ}

/-- References are dropped through handles only. -/
def HandlesOnly (_ : State κ τ) : Action κ τ → Prop
  | .release _ => False
  | _ => True

/-- Whether an action drops a reference without a handle can be checked. -/
instance (s : State κ τ) (action : Action κ τ) : Decidable (s.HandlesOnly action) := by
  induction action using Action.casesOn <;> unfold HandlesOnly <;> infer_instance

/-- What a step does to the reference counts and to the handles out. -/
inductive ReferenceEffect (s : State κ τ) : Action κ τ → State κ τ → Prop
  /-- All references and all handles stay. -/
  | kept (action : Action κ τ) (next : State κ τ) (store : s.toStore.Kept next.toStore)
      (handles : next.handles = s.handles) : ReferenceEffect s action next
  /-- An entry is checked out. -/
  | issued (action : Action κ τ) (next : State κ τ) (e : EntryId) (entry : Entry κ τ)
      (found : s.heap[e]? = some entry) (heap : next.heap = (s.toStore.checkout e).heap)
      (handles : next.handles = s.handles ++ [{ entry := e, released := false }]) :
      ReferenceEffect s action next
  /-- A handle is released for the first time. -/
  | released (h : HandleId) (handle : Handle) (next : State κ τ)
      (found : s.handles[h]? = some handle) (holding : handle.released = false)
      (effect : ReleaseEffect
        { s with handles := s.handles.modify h fun handle => { handle with released := true } }
        handle.entry next) : ReferenceEffect s (.releaseHandle h) next
  /-- A reference is dropped by its key. -/
  | releasedKey (key : κ) (e : EntryId) (next : State κ τ) (effect : ReleaseEffect s e next) :
      ReferenceEffect s (.release key) next
  /-- A fresh entry is inserted. -/
  | inserted (action : Action κ τ) (next : State κ τ) (key : κ) (resource : τ) (now : Int)
      (heap : next.heap = (s.toStore.insert key resource now).heap)
      (handles : next.handles = s.handles) : ReferenceEffect s action next

/-- Every step has one of the effects on the references. -/
theorem Effect.references {action : Action κ τ} (core : Core s)
    (effect : Effect options s action next) : ReferenceEffect s action next := by
  -- Few steps take or drop a reference, and the rest keep them all.
  have wf := core.store
  have same (store : next.toStore.heap = s.toStore.heap) (handles : next.handles = s.handles) :
      ReferenceEffect s action next :=
    .kept action next ⟨congrArg List.length store, fun _ entry found =>
      ⟨entry, store ▸ found, .refl entry⟩⟩ handles
  cases effect with
  | shared key e entry bound found => exact .issued _ _ e entry found rfl rfl
  | delivered a acquire e called phase =>
    obtain ⟨entry, found, -⟩ := core.fits called phase
    exact .issued _ _ e entry found rfl rfl
  | released h handle next found holding effect =>
    exact .released h handle next found holding effect
  | releasedKey key e next bound effect => exact .releasedKey key e next effect
  | drain => exact .kept _ _ (kept_drain wf) (sameCalls_drain wf).handles
  | stop =>
    exact .kept _ _ (kept_drain (s := s.setClosed.stopTimers) wf)
      (sameCalls_drain (s := s.setClosed.stopTimers) wf).handles
  | sweep => exact .kept _ _ (kept_sweep wf) (sameCalls_sweep wf).handles
  | missed a acquire after next called phase turn absent effect =>
    exact .kept _ _ effect.kept effect.acts.handles
  | discarded a acquire live next called phase effect =>
    exact .kept _ _ effect.kept effect.acts.handles
  | resumed a acquire w waiter next called phase found woken effect =>
    exact .kept _ _ effect.kept effect.acts.handles
  | refuted a acquire live => exact .kept _ _ (.discard live) rfl
  | inserted x exec resource => exact .inserted _ _ exec.key resource s.now rfl rfl
  | disposeSettled e => exact .kept _ _ (.finish e) rfl
  | queued | releasedAgain | releasedNone | start | gcKeyState | emitStats | timeout | clock
  | validating | returned | abandoned | breakerless | creating | failed | drained | unvalidated
  | passed | factoryCalled | factorySettled | execRejected | execLate | lateDisposeSettled
  | breakerChanged => exact same rfl rfl

/-- A handle stays what it is, and once released it stays released. -/
theorem Effect.handle_kept {action : Action κ τ} (core : Core s)
    (effect : Effect options s action next) {h : HandleId} {handle : Handle}
    (issued : s.handles[h]? = some handle) :
    ∃ after, next.handles[h]? = some after ∧ after.entry = handle.entry ∧
      (handle.released = true → after.released = true) := by
  -- Handles are added at the end, and their flags only go up.
  have same (kept : next.handles = s.handles) :
      ∃ after, next.handles[h]? = some after ∧ after.entry = handle.entry ∧
        (handle.released = true → after.released = true) :=
    ⟨handle, kept ▸ issued, rfl, id⟩
  cases effect.references core with
  | kept _ _ _ handles | inserted _ _ _ _ _ _ handles => exact same handles
  | issued _ _ e entry found heap handles =>
    -- A new handle is issued behind the others.
    exact ⟨handle, handles ▸ Arena.getElem?_push_of_some _ issued, rfl, id⟩
  -- The release raises the flag of its own handle.
  | released h' _ _ found holding effect =>
    rw [effect.sameCalls.handles]
    by_cases here : h' = h
    · subst here
      exact ⟨_, Arena.getElem?_modify_self _ issued, rfl, fun _ => rfl⟩
    · exact ⟨handle, by rw [Arena.getElem?_modify_other _ _ here, issued], rfl, id⟩
  | releasedKey _ _ _ effect => exact same effect.sameCalls.handles

/-- Releasing a handle leaves it released. -/
theorem released_releaseHandle {h : HandleId} {handle : Handle}
    (issued : s.handles[h]? = some handle) :
    ∃ after, (s.releaseHandle h handle).handles[h]? = some after ∧ after.released = true := by
  unfold releaseHandle
  split
  · exact ⟨handle, issued, by assumption⟩
  · -- The flag goes up before the reference is dropped, and dropping it touches no handle.
    rw [(releaseEntry_effect _ handle.entry).sameCalls.handles]
    exact ⟨_, Arena.getElem?_modify_self _ issued, rfl⟩

/-- Every step keeps the counts compared with the handles out. -/
theorem Effect.counted {action : Action κ τ} {r : Nat → Nat → Prop} (comparison : Comparison r)
    (core : Core s) (effect : Effect options s action next)
    (dropping : s.HandlesOnly action ∨ ∀ n m, r (n + 1) m → r n m)
    (counted : Counted r s.heap s.handles) : Counted r next.heap next.handles := by
  -- A checkout, a release and an insertion have their laws, and the rest keep all references.
  rw [Counted.iff_compared] at counted ⊢
  cases effect.references core with
  | kept _ _ store handles =>
    rw [handles]
    exact counted.kept store
  | issued _ _ e entry found heap handles =>
    rw [heap, handles]
    exact counted.checkout comparison found (outstanding_issue s.handles e)
  | released h handle _ found holding effect =>
    rw [effect.sameCalls.handles]
    refine .release effect (counted.mark h) comparison (outstanding_release found holding)
      fun entry _ matters disposed => ?_
    -- Handles on entries that were disposed of are not counted.
    rcases matters with never | undisposed
    · cases never
    · rw [disposed] at undisposed
      cases undisposed
  | releasedKey key e _ effect =>
    rw [effect.sameCalls.handles]
    rcases dropping with never | loose
    · exact absurd never (by simp [HandlesOnly])
    · exact .releaseKey effect counted loose
  | inserted _ _ key resource now heap handles =>
    rw [heap, handles]
    refine counted.insert comparison ?_ key resource now
    -- Handles are on older entries only.
    rw [outstanding, List.countP_eq_zero]
    intro handle issued
    have older := Nat.ne_of_lt (counted.issued handle issued)
    simp [older]

omit [DecidableEq κ] in
/-- A new pool has issued no handles. -/
theorem counted_init {r : Nat → Nat → Prop} (options : PoolOptions) :
    Counted r (init options : State κ τ).heap (init options : State κ τ).handles := by
  -- There are neither entries nor handles.
  constructor <;> simp [init, Store.empty]

/-- What releasing a handle leaves alone. -/
structure OwnEntryOnly (s next : State κ τ) (h : HandleId) (e : EntryId) : Prop where
  store : s.toStore.OnlyEntry e next.toStore
  handles : ∀ other, other ≠ h → next.handles[other]? = s.handles[other]?
  acquires : next.acquires = s.acquires

/-- Dropping a reference of an entry touches no other. -/
theorem ReleaseEffect.onlyEntry {e : EntryId} (effect : ReleaseEffect s e next) :
    s.toStore.OnlyEntry e next.toStore := by
  -- Every outcome is made of operations on the one entry.
  cases effect with
  | ignored => exact .refl e s.toStore
  | dropped => exact .update s.toStore e _
  | retired =>
    have retired := Store.OnlyEntry.retire s.toStore e (lastDrop s.now)
    rwa [← stampReleased_dropReference] at retired
  | freed =>
    have freed := Store.OnlyEntry.free s.toStore e (lastDrop s.now)
    rwa [← stampReleased_dropReference] at freed

/-- Releasing a handle touches its own entry and no other. -/
theorem ownEntryOnly_release {h : HandleId} {handle : Handle} (found : s.handles[h]? = some handle)
    (stepped : s.step options (.releaseHandle h) = some next) :
    OwnEntryOnly s next h handle.entry := by
  -- The handle is marked and its reference dropped, and neither concerns another entry.
  have effect := step_effect stepped
  cases effect with
  | releasedAgain =>
    exact ⟨.refl _ _, fun _ _ => rfl, rfl⟩
  | released h other next found' holding effect =>
    cases found.symm.trans found'
    have only := effect.onlyEntry
    refine ⟨⟨only.heap, only.entries, only.orphans, only.idle⟩, fun other differ => ?_,
      effect.sameCalls.acquires⟩
    rw [effect.sameCalls.handles]
    exact Arena.getElem?_modify_other _ _ (Ne.symm differ)

/-- What the reference counts of a state promise. -/
structure ExactReferences (options : PoolOptions) (s : State κ τ) : Prop where
  /-- An undisposed entry has as many references as handles out on it. -/
  counts : ∀ (e : Nat) entry, s.heap[e]? = some entry → entry.disposed = false →
    entry.refCount = outstanding s.handles e
  /-- Releasing a handle affects its own entry only. -/
  own : ∀ (h : HandleId) handle next, s.handles[h]? = some handle →
    s.step options (.releaseHandle h) = some next → OwnEntryOnly s next h handle.entry
  /-- Releasing a handle again changes nothing. -/
  again : ∀ (h : HandleId) handle next, s.handles[h]? = some handle → handle.released = true →
    s.step options (.releaseHandle h) = some next → next = s

/-- With releases through handles only, references are exact throughout every run. -/
theorem references_exact (options : PoolOptions) (actions : List (Action κ τ))
    (handlesOnly : Runs.Guarded (step options) HandlesOnly (init options) actions) :
    Runs.Throughout (step options) (ExactReferences options) (init options) actions := by
  -- The counts are the invariant, and what a single release does is read off its effect.
  have kept := handlesOnly.throughout
    (fun s => Core s ∧ Counted (· = ·) s.heap s.handles)
    (fun s action next ⟨core, counted⟩ met stepped =>
      ⟨core_step core stepped,
        (step_effect stepped).counted comparison_eq core (.inl met) counted⟩)
    ⟨core_init options, counted_init options⟩
  refine kept.mono fun s ⟨core, counted⟩ => ⟨counted.counts, fun h handle next found stepped =>
    ownEntryOnly_release found stepped, fun h handle next found spent stepped => ?_⟩
  obtain ⟨other, found', same⟩ := Option.map_eq_some_iff.mp stepped
  cases found.symm.trans found'
  rw [← same, releaseHandle, if_pos spent]

/-- A run in which two holders of one entry release it after a drain, one of them twice. -/
theorem references_exact_orphaned :
    let options : PoolOptions := { max := 1 }
    let create : List (Action Nat Nat) :=
      [.obtain 0, .create 0 .threw, .factoryCalled 0, .factorySettled 0 (some 70),
        .execSettled 0 (some 70), .deliver 0]
    Runs.Throughout (step options) (ExactReferences options) (init options)
      ([.acquire 7] ++ create ++
        [.acquire 7, .drain, .releaseHandle 0, .releaseHandle 0, .releaseHandle 1]) :=
  -- The run releases through handles only.
  references_exact _ _ (by decide)

end State

end RefPool
