import RefPool.Proofs.Ready
import RefPool.Proofs.References

/-! No handle outlives its resource while entries between `obtain` and `checkout` are let be. -/

namespace RefPool

/-- What `obtain` returned is a claim. -/
theorem claims_unclaimed : Claims Phase.unclaimed where
  -- A call that has returned an entry has not handed it out.
  returned := fun _ => rfl
  within := fun _ _ claimed => .inr (Phase.unclaimed_eq_some.mp claimed)

namespace State

variable {κ τ : Type} [DecidableEq κ] {options : PoolOptions} {s next : State κ τ} {e : EntryId}

/-- No handle is out on an entry whose `dispose` was called. -/
def NoUseAfterDispose (s : State κ τ) : Prop :=
  ∀ handle ∈ s.handles, handle.released = false →
    ∀ entry ∈ s.heap[handle.entry]?, entry.disposing = false

/-- Whether a handle is out on an entry whose `dispose` was called can be checked. -/
instance (s : State κ τ) : Decidable s.NoUseAfterDispose := by
  unfold NoUseAfterDispose
  infer_instance

/--
An entry on its way to a caller is left alone.

While `obtain` has returned an entry that `checkout` has not taken a reference of, no drain starts
on it unheld and no handle gives back its last reference condemned. An entry passes validation only
while it is still live.
-/
def Undisturbed (s : State κ τ) : Action κ τ → Prop
  | .drain | .stop => ∀ acquire ∈ s.acquires, ∀ e ∈ acquire.phase.unclaimed,
      ∀ entry ∈ s.heap[e]?, 0 < entry.refCount
  | .releaseHandle h => ∀ handle ∈ s.handles[h]?, handle.released = false →
      ∀ entry ∈ s.heap[handle.entry]?, entry.refCount = 1 → entry.condemned = true →
        ∀ acquire ∈ s.acquires, acquire.phase.unclaimed ≠ some handle.entry
  | .validated a (some true) => ∀ acquire ∈ s.acquires[a]?, ∀ live ∈ acquire.phase.examined,
      s.entries.get? acquire.key = some live
  | _ => True

/-- Whether a step disturbs an entry on its way to a caller can be checked. -/
instance (s : State κ τ) (action : Action κ τ) : Decidable (s.Undisturbed action) := by
  induction action using Action.casesOn with
  | validated a verdict =>
    match verdict with
    | none | some true | some false => unfold Undisturbed; infer_instance
  | _ => unfold Undisturbed; infer_instance

/-- Undisturbed steps leave no unclaimed entry being disposed of. -/
theorem Effect.readyUnclaimed {action : Action κ τ} (core : Core s)
    (effect : Effect options s action next) (handlesOnly : s.HandlesOnly action)
    (undisturbed : s.Undisturbed action) (ready : Ready Phase.unclaimed s.heap s.acquires) :
    Ready Phase.unclaimed next.heap next.acquires := by
  -- What begins the disposal of a claimed entry is what the run is promised to avoid.
  refine effect.ready core claims_unclaimed ready
    (fun a acquire e entry called claimed found disturbs => ?_)
    fun a acquire live acting called phase => ?_
  · have inside := List.mem_of_getElem? called
    rcases disturbs with ⟨closing, unheld⟩ |
      ⟨last, condemned, ⟨_, acting⟩ | ⟨h, handle, acting, held, holding, own⟩⟩
    · have pinned : 0 < entry.refCount := by
        rcases closing with rfl | rfl <;> exact undisturbed acquire inside e claimed entry found
      omega
    · simp [acting, HandlesOnly] at handlesOnly
    · subst acting own
      exact undisturbed handle held holding entry found last condemned acquire inside claimed
  · subst acting
    have bound := undisturbed acquire called live (by rw [phase]; rfl)
    obtain ⟨entry, found, promised⟩ := core.store.live acquire.key live bound
    exact ⟨entry, found, promised.undisposed⟩

omit [DecidableEq κ] in
/-- An unreleased handle is counted among the handles out on its entry. -/
theorem outstanding_pos {handles : List Handle} {handle : Handle} (inside : handle ∈ handles)
    (holding : handle.released = false) : 0 < outstanding handles handle.entry :=
  -- The handle is among those counted.
  List.countP_pos_iff.mpr ⟨handle, inside, by simp [holding]⟩

/-- A step that releases no handle disposes of no held entry. -/
theorem NoUseAfterDispose.kept {action : Action κ τ} (core : Core s)
    (effect : Effect options s action next) (counted : Counted (· = ·) s.heap s.handles)
    (safe : s.NoUseAfterDispose) (handlesOnly : s.HandlesOnly action)
    (elsewhere : ∀ h, action ≠ .releaseHandle h) (handle : Handle) (inside : handle ∈ s.handles)
    (holding : handle.released = false) (after : Entry κ τ)
    (present : next.heap[handle.entry]? = some after) : after.disposing = false := by
  -- A cause of a disposal finds the entry with no reference, or drops its last one.
  have older := counted.issued handle inside
  have found := List.getElem?_eq_getElem older
  have fresh := safe handle inside holding _ found
  have counts := counted.counts _ _ found ((core.store.sound _ _ found).undisposed fresh)
  have positive := outstanding_pos inside holding
  refine Bool.eq_false_iff.mpr fun begun => ?_
  rcases effect.starts core.store _ _ after found present begun with started | caused
  · simp [fresh] at started
  cases caused with
  | evicted unheld | drained _ unheld => omega
  | released h _ acting => exact elsewhere h acting
  | releasedKey _ acting => simp [acting, HandlesOnly] at handlesOnly
  | refuted b other _ called phase =>
    obtain ⟨record, found', -, unheld, -⟩ := core.fits called phase
    cases found.symm.trans found'
    omega

omit [DecidableEq κ] in
/-- A checkout of an entry that is not being disposed of leaves every handle safe. -/
theorem NoUseAfterDispose.checkout {handles : List Handle}
    (safe : ∀ handle ∈ s.handles, handle.released = false →
      ∀ entry ∈ (s.toStore.checkout e).heap[handle.entry]?, entry.disposing = false)
    (fresh : ∀ entry ∈ s.heap[e]?, entry.disposing = false)
    (issued : handles = s.handles ++ [{ entry := e, released := false }]) :
    ∀ handle ∈ handles, handle.released = false →
      ∀ entry ∈ (s.toStore.checkout e).heap[handle.entry]?, entry.disposing = false := by
  -- The new handle is on an entry that was checked, and the older ones were safe.
  subst issued
  intro handle inside holding after present
  rcases List.mem_append.mp inside with before | new
  · exact safe handle before holding after present
  · rw [List.mem_singleton.mp new, Store.checkout_heap] at present
    rcases Arena.getElem?_modify_cases present with ⟨-, old, found, rfl⟩ | ⟨differ, -⟩
    · exact fresh old found
    · exact absurd rfl differ

/-- Undisturbed steps leave every handle safe. -/
theorem Effect.noUseAfterDispose {action : Action κ τ} (core : Core s)
    (effect : Effect options s action next) (counted : Counted (· = ·) s.heap s.handles)
    (handlesOnly : s.HandlesOnly action) (ready : Ready Phase.unclaimed s.heap s.acquires)
    (safe : s.NoUseAfterDispose) : next.NoUseAfterDispose := by
  -- A handle is issued by two steps and released by one, and the others move none.
  have wf := core.store
  have kept := NoUseAfterDispose.kept core effect counted safe handlesOnly
  have unmoved (same : next.handles = s.handles) (elsewhere : ∀ h, action ≠ .releaseHandle h) :
      next.NoUseAfterDispose := fun handle inside => kept elsewhere handle (same ▸ inside)
  cases effect with
  | shared key e entry bound found =>
    refine NoUseAfterDispose.checkout (kept (by simp)) (fun record present => ?_) rfl
    cases found.symm.trans present
    exact (wf.live_at bound found).undisposed
  | delivered a acquire e called phase =>
    refine NoUseAfterDispose.checkout (kept (by simp)) (fun record present => ?_) rfl
    obtain ⟨entry, found, fresh⟩ := ready a acquire e called (by rw [phase]; rfl)
    cases found.symm.trans present
    exact fresh
  | releasedAgain => exact safe
  | released h handle next found holding effect =>
    intro other inside out after present
    rw [effect.sameCalls.handles] at inside
    -- Another handle on the entry keeps it from being disposed of.
    obtain ⟨i, read⟩ := List.mem_iff_getElem?.mp inside
    rcases Arena.getElem?_modify_cases read with ⟨-, old, -, rfl⟩ | ⟨-, before⟩
    · simp at out
    have member := List.mem_of_getElem? before
    have found' := List.getElem?_eq_getElem (counted.issued other member)
    have fresh := safe other member out _ found'
    have counts := counted.counts _ _ found' ((wf.sound _ _ found').undisposed fresh)
    refine Bool.eq_false_iff.mpr fun begun => ?_
    rcases effect.starts wf _ _ after found' present begun with started | ⟨same, last, -⟩
    · simp [fresh] at started
    have fewer := outstanding_release found holding other.entry
    have positive : 0 < outstanding (s.handles.modify h fun handle =>
        { handle with released := true }) other.entry := outstanding_pos inside out
    rw [if_pos same.symm] at fewer
    omega
  | releasedKey => exact absurd handlesOnly (by simp [HandlesOnly])
  | drain => exact unmoved (sameCalls_drain wf).handles (by simp)
  | stop => exact unmoved (sameCalls_drain (s := s.setClosed.stopTimers) wf).handles (by simp)
  | sweep => exact unmoved (sameCalls_sweep wf).handles (by simp)
  | missed a acquire after next called phase turn absent effect =>
    exact unmoved effect.acts.handles (by simp)
  | discarded a acquire live next called phase effect =>
    exact unmoved effect.acts.handles (by simp)
  | resumed a acquire w waiter next called phase found woken effect =>
    exact unmoved effect.acts.handles (by simp)
  | queued | releasedNone | start | gcKeyState | emitStats | timeout | clock | validating
  | returned | abandoned | breakerless | creating | failed | drained | unvalidated | passed
  | refuted | factoryCalled | factorySettled | execRejected | execLate | inserted
  | disposeSettled | lateDisposeSettled | breakerChanged => exact kept (by simp)

/--
With releases through handles only, no handle outlives its resource in a run that leaves every
entry on its way to a caller alone.
-/
theorem noUseAfterDispose_throughout (options : PoolOptions) (actions : List (Action κ τ))
    (handlesOnly : Runs.Guarded (step options) HandlesOnly (init options) actions)
    (undisturbed : Runs.Guarded (step options) Undisturbed (init options) actions) :
    Runs.Throughout (step options) NoUseAfterDispose (init options) actions := by
  -- The counts, the claims and the safety are carried along the run together.
  have kept := (handlesOnly.both undisturbed).throughout
    (fun s => Core s ∧ Counted (· = ·) s.heap s.handles ∧
      Ready Phase.unclaimed s.heap s.acquires ∧ s.NoUseAfterDispose)
    (fun s action next ⟨core, counted, ready, safe⟩ ⟨handles, alone⟩ stepped =>
      have effect := step_effect stepped
      ⟨core_step core stepped, effect.counted comparison_eq core (.inl handles) counted,
        effect.readyUnclaimed core handles alone ready,
        effect.noUseAfterDispose core counted handles ready safe⟩)
    ⟨core_init options, counted_init options, by simp [Ready, init], by
      simp [NoUseAfterDispose, init]⟩
  exact kept.mono fun s ⟨_, _, _, safe⟩ => safe

/-- A run in which an idle entry passes validation and its holder outlives a drain. -/
theorem noUseAfterDispose_throughout_held :
    let options : PoolOptions := { max := 1, validate := true }
    let create : List (Action Nat Nat) :=
      [.acquire 7, .obtain 0, .create 0 .threw, .factoryCalled 0, .factorySettled 0 (some 70),
        .execSettled 0 (some 70), .deliver 0, .releaseHandle 0]
    Runs.Throughout (step options) NoUseAfterDispose (init options)
      (create ++ [.acquire 7, .obtain 1, .validated 1 (some true), .deliver 1, .drain,
        .releaseHandle 1]) :=
  -- The drain finds the entry held, and condemns it.
  noUseAfterDispose_throughout _ _ (by decide) (by decide)

/-- A drain disposes of an idle entry during its validation, and a caller gets it afterwards. -/
theorem noUseAfterDispose_validated :
    let options : PoolOptions := { max := 1, validate := true }
    let create : List (Action Nat Nat) :=
      [.acquire 7, .obtain 0, .create 0 .threw, .factoryCalled 0, .factorySettled 0 (some 70),
        .execSettled 0 (some 70), .deliver 0, .releaseHandle 0]
    ¬ Runs.Throughout (step options) NoUseAfterDispose (init options)
      (create ++ [.acquire 7, .obtain 1, .drain, .validated 1 (some true), .deliver 1]) := by
  -- The disposal has begun when the validation passes.
  decide

end State

end RefPool
