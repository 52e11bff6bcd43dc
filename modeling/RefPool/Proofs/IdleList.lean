import RefPool.Proofs.Core
import RefPool.Proofs.Exact

/-! The idle list and the statistics are exact until a handle revives an entry being disposed. -/

namespace RefPool.State

variable {κ τ : Type} [DecidableEq κ] {options : PoolOptions} {s next : State κ τ} {e : EntryId}

/-- A turn of the reservation loop keeps the store exact. -/
theorem SlotEffect.exact {a : AcquireId} (effect : SlotEffect options s a next)
    (wf : s.toStore.WellFormed) (accurate : s.toStore.Exact) : next.toStore.Exact := by
  -- The victim is listed, so it is the entry that its key is bound to.
  cases effect with
  | evicted victim _ _ _ listed =>
    obtain ⟨entry, found, -⟩ := wf.listed victim listed
    exact accurate.evict wf found (accurate.bound_of_listed found listed)
  | unbounded | refused | reserved | exhausted | parked => exact accurate

/-- `obtain` from the orphan lookup on keeps the store exact. -/
theorem MissEffect.exact {a : AcquireId} {key : κ} (effect : MissEffect options s a key next)
    (wf : s.toStore.WellFormed) (accurate : s.toStore.Exact) : next.toStore.Exact := by
  -- Only a resurrection or an eviction touches the store.
  cases effect with
  | resurrected e bound => exact accurate.resurrect wf bound
  | refused => exact accurate
  | slot _ _ _ effect => exact effect.exact wf accurate

/-- Whether dropping a reference of an entry would list it while its disposal is under way. -/
def revives (s : State κ τ) (e : EntryId) : Bool :=
  s.heap[e]?.any fun entry =>
    entry.refCount = 1 ∧ entry.condemned = false ∧ entry.disposing ∧ entry.disposed = false

/-- Dropping a reference keeps the store exact, unless it revives an entry. -/
theorem ReleaseEffect.exact (effect : ReleaseEffect s e next) (wf : s.toStore.WellFormed)
    (accurate : s.toStore.Exact) (dead : s.revives e = false) : next.toStore.Exact := by
  -- A listed entry must be bound, which only the start of its disposal can undo.
  cases effect with
  | ignored => exact accurate
  | dropped entry found _ shared => exact accurate.drop found shared
  | retired entry found =>
    have retired := accurate.retire wf found (lastDrop s.now) (fun _ => rfl)
      (wf.sound e entry found).ended
    rwa [← stampReleased_dropReference] at retired
  | freed entry found undisposed last kept unorphaned =>
    have fresh : entry.disposing = false := by
      simpa [revives, found, last, kept, undisposed] using dead
    -- The disposal has not begun, so the entry is live or an orphan, and it is no orphan.
    have bound := ((accurate.each e entry found).kept fresh).resolve_right unorphaned
    have freed := accurate.free found (lastDrop s.now) rfl rfl (by simp [lastDrop, last])
      (by omega) bound
    rwa [← stampReleased_dropReference] at freed

/-- A drain keeps the store exact. -/
theorem exact_drain (wf : s.toStore.WellFormed) (accurate : s.toStore.Exact) :
    s.drain.toStore.Exact := by
  -- The idle list runs empty with the live map, so resetting it at the end changes nothing.
  obtain ⟨last, waits, wf', accurate', nothing, same⟩ := drain_rule (s := s)
    (P := fun s _ => s.toStore.Exact) wf
    (fun s _ e entry wf accurate found bound _ => accurate.evict wf found bound)
    (fun s _ e entry wf accurate found bound held =>
      (accurate.orphan wf found bound held).setWaiters _)
    (fun s _ e entry _ accurate _ _ _ => accurate.condemn.setWaiters _) accurate
  have emptied := accurate'.resetIdle wf' nothing
  rw [same]
  show last.toStore.resetIdle.Exact
  rw [emptied]
  exact accurate'

/-- A sweep keeps the store exact. -/
theorem exact_sweep (wf : s.toStore.WellFormed) (accurate : s.toStore.Exact) :
    (s.sweep options).toStore.Exact := by
  -- What is swept is listed, and so live under its key.
  refine (sweep_rule options (P := fun s => s.toStore.Exact) wf ?_ (fun _ _ => id) accurate).2
  intro s node entry wf accurate found listed _
  exact accurate.evict wf found (accurate.bound_of_listed found listed)

/--
No handle gives back the last reference of an entry whose disposal is under way.

A condemned entry is exempt: it is removed for good instead of being listed as idle.
-/
def NoRevival (s : State κ τ) : Action κ τ → Prop
  | .releaseHandle h =>
    ∀ handle ∈ s.handles[h]?, handle.released = false → s.revives handle.entry = false
  | _ => True

/-- Whether a release revives an entry can be checked. -/
instance (s : State κ τ) (action : Action κ τ) : Decidable (s.NoRevival action) := by
  induction action using Action.casesOn <;> unfold NoRevival <;> infer_instance

/-- Every step that revives no entry keeps the store exact. -/
theorem Effect.exact {action : Action κ τ} (core : Core s)
    (effect : Effect options s action next) (dead : s.NoRevival action)
    (accurate : s.toStore.Exact) : next.toStore.Exact := by
  -- Every step but a release has its law in the exact store.
  have wf := core.store
  cases effect with
  | shared key e entry bound found => exact accurate.checkout wf found
  | released h handle next found holding effect =>
    exact effect.exact wf accurate (dead handle found holding)
  | releasedKey key e next bound effect =>
    -- An entry that a map binds is not being disposed of.
    refine effect.exact wf accurate ?_
    rcases bound with bound | bound
    · obtain ⟨entry, found, promised⟩ := wf.live key e bound
      simp [revives, found, promised.undisposed]
    · obtain ⟨entry, found, promised⟩ := wf.orphaned key e bound
      simp [revives, found, promised.undisposed]
  | drain | stop => exact exact_drain wf accurate
  | sweep => exact exact_sweep wf accurate
  | missed a acquire after next called phase turn absent effect => exact effect.exact wf accurate
  | discarded a acquire live next called phase effect => exact effect.exact wf accurate
  | resumed a acquire w waiter next called phase found woken effect =>
    exact effect.exact wf accurate
  | delivered a acquire e called phase =>
    obtain ⟨entry, found, -⟩ := core.fits called phase
    exact accurate.checkout wf found
  | refuted a acquire live called phase =>
    obtain ⟨entry, found, -⟩ := core.fits called phase
    exact accurate.discard wf found
  | inserted x exec resource found outstanding =>
    obtain ⟨acquire, called, same, phase⟩ := core.execs.awaited x exec found outstanding
    have fits := core.fits called phase
    exact accurate.insert resource s.now (same ▸ fits.1)
  | disposeSettled e => exact accurate.finish.setWaiters fun _ => []
  | queued | releasedAgain | releasedNone | start | gcKeyState | emitStats | timeout | clock
  | validating | returned | abandoned | breakerless | creating | failed | drained | unvalidated
  | passed | factoryCalled | factorySettled | execRejected | execLate | lateDisposeSettled
  | breakerChanged => exact accurate

/-! ### The statistics -/

/-- The live entries that a full scan finds unheld. -/
def scanIdle (s : State κ τ) : Nat :=
  s.entries.values.countP fun e => s.heap[e]?.any fun entry => entry.refCount = 0

/-- The live and orphaned entries that a full scan finds held. -/
def scanInUse (s : State κ τ) : Nat :=
  (s.entries.values ++ s.orphans.values).countP fun e =>
    s.heap[e]?.any fun entry => 0 < entry.refCount

/-- The idle list invariant, and statistics that agree with a full scan. -/
structure IdleListExact (s : State κ τ) : Prop where
  /-- An entry is listed exactly when it is live under its key and nobody holds it. -/
  listed : ∀ (e : Nat) entry, s.heap[e]? = some entry →
    (e ∈ s.idle ↔ s.entries.get? entry.key = some e ∧ entry.refCount = 0)
  /-- The flag of an entry says whether it is listed. -/
  flagged : ∀ (e : Nat) entry, s.heap[e]? = some entry → (entry.inIdle = true ↔ e ∈ s.idle)
  idle : s.getStats.idle = s.scanIdle
  inUse : s.getStats.inUse = s.scanInUse
  live : s.getStats.idle + s.getStats.inUse = s.getStats.live
  nonnegative : 0 ≤ s.getStats.idle ∧ 0 ≤ s.getStats.inUse

/-- Whether the idle list and the statistics are exact can be checked. -/
instance (s : State κ τ) : Decidable s.IdleListExact :=
  decidable_of_iff
    ((∀ (e : Nat) entry, s.heap[e]? = some entry →
        (e ∈ s.idle ↔ s.entries.get? entry.key = some e ∧ entry.refCount = 0)) ∧
      (∀ (e : Nat) entry, s.heap[e]? = some entry → (entry.inIdle = true ↔ e ∈ s.idle)) ∧
      s.getStats.idle = s.scanIdle ∧ s.getStats.inUse = s.scanInUse ∧
      s.getStats.idle + s.getStats.inUse = s.getStats.live ∧
      0 ≤ s.getStats.idle ∧ 0 ≤ s.getStats.inUse)
    ⟨fun ⟨listed, flagged, idle, inUse, live, nonnegative⟩ =>
        ⟨listed, flagged, idle, inUse, live, nonnegative⟩,
      fun ⟨listed, flagged, idle, inUse, live, nonnegative⟩ =>
        ⟨listed, flagged, idle, inUse, live, nonnegative⟩⟩

/-- In an exact store the idle list has as many nodes as a scan finds unheld live entries. -/
theorem length_idle (wf : s.toStore.WellFormed) (accurate : s.toStore.Exact) :
    s.idle.length = s.scanIdle := by
  -- The list and the scan find the same entries, each once.
  rw [scanIdle, List.countP_eq_length_filter]
  refine ((List.perm_ext_iff_of_nodup wf.once (wf.nodup_entries.filter _)).mpr
    fun e => ?_).length_eq
  rw [List.mem_filter, OrderedMap.mem_values]
  constructor
  · intro inside
    obtain ⟨entry, found, -⟩ := wf.listed e inside
    obtain ⟨bound, unheld⟩ := (accurate.each e entry found).listed.mp inside
    exact ⟨⟨entry.key, bound⟩, by simp [found, unheld]⟩
  · rintro ⟨⟨key, bound⟩, unheld⟩
    obtain ⟨entry, found, promised⟩ := wf.live key e bound
    simp only [found, Option.any_some, decide_eq_true_eq] at unheld
    exact (accurate.each e entry found).listed.mpr ⟨promised.key ▸ bound, unheld⟩

/-- A scan finds every live entry held or unheld, and every orphan held. -/
theorem scan_total (wf : s.toStore.WellFormed) :
    s.scanIdle + s.scanInUse = s.entries.size + s.orphans.size := by
  have live : s.scanIdle + s.entries.values.countP (fun e =>
      s.heap[e]?.any fun entry => 0 < entry.refCount) = s.entries.values.length := by
    rw [scanIdle, List.length_eq_countP_add_countP fun e : EntryId =>
      (s.heap[e]?.any fun entry => entry.refCount = 0 : Bool)]
    congr 1
    refine List.countP_congr fun e inside => ?_
    obtain ⟨key, bound⟩ := OrderedMap.mem_values.mp inside
    obtain ⟨entry, found, -⟩ := wf.live key e bound
    simp [found, Nat.pos_iff_ne_zero]
  have orphaned : s.orphans.values.countP (fun e =>
      s.heap[e]?.any fun entry => 0 < entry.refCount) = s.orphans.values.length := by
    rw [List.countP_eq_length]
    intro e inside
    obtain ⟨key, bound⟩ := OrderedMap.mem_values.mp inside
    obtain ⟨entry, found, promised⟩ := wf.orphaned key e bound
    simp [found, promised.held]
  -- The scan for held entries goes over both maps, and the one for unheld over the live.
  rw [scanInUse, List.countP_append, orphaned, ← Nat.add_assoc, live]
  simp [OrderedMap.values, OrderedMap.size]

/-- An exact store has exact statistics. -/
theorem idleListExact_of_exact (wf : s.toStore.WellFormed) (accurate : s.toStore.Exact) :
    s.IdleListExact := by
  -- The statistics are computed from the sizes of the maps and the idle count.
  have counted : s.idleCount = s.scanIdle := by rw [accurate.count, length_idle wf accurate]
  have total := scan_total wf
  refine ⟨fun e entry found => (accurate.each e entry found).listed,
    fun e entry found => (accurate.each e entry found).flagged, ?_, ?_, ?_, ?_⟩ <;>
    simp only [getStats] <;> omega

/-- A step that revives an entry puts an entry on the idle list that no key is bound to. -/
theorem noRevival_of_listed {action : Action κ τ} (core : Core s)
    (effect : Effect options s action next) (listed : next.IdleListExact) :
    s.NoRevival action := by
  -- Only the first release of a handle is of interest, and only of an entry being disposed of.
  -- Such a release neither keeps the entry nor retires it, so it lists it.
  cases effect with
  | released h handle next found holding effect =>
    intro other found' _
    cases found.symm.trans found'
    by_contra revived
    rw [Bool.not_eq_false, revives, Option.any_eq_true] at revived
    obtain ⟨entry, present, revived⟩ := revived
    simp only [decide_eq_true_eq] at revived
    obtain ⟨last, kept, doomed, undisposed⟩ := revived
    -- The entry is neither live nor orphaned, and its last reference lists it.
    have unorphaned : s.orphans.get? entry.key ≠ some handle.entry := fun bound => by
      simp [(core.store.orphaned_at bound present).undisposed] at doomed
    have lowered : entry.inIdle = false := Bool.eq_false_iff.mpr fun raised => by
      have := (core.store.sound _ entry present).flagged raised
      omega
    cases effect with
    | ignored spent => rcases spent entry present with ended | spent <;> simp_all
    | dropped record present' _ shared =>
      cases present.symm.trans present'
      omega
    | retired record present' _ _ condemned =>
      cases present.symm.trans present'
      rcases condemned with condemned | orphaned
      · simp [kept] at condemned
      · exact unorphaned orphaned
    | freed record present' =>
      cases present.symm.trans present'
      have node : handle.entry ∈
          ((s.toStore.update handle.entry (lastDrop s.now)).idleAppend handle.entry).idle := by
        have dropped : (s.toStore.update handle.entry (lastDrop s.now)).heap[handle.entry]? =
            some (lastDrop s.now entry) := Arena.getElem?_modify_self _ present
        have unlisted : (lastDrop s.now entry).inIdle = false := lowered
        rw [Store.idleAppend_idle dropped unlisted]
        simp
      have read : ((s.toStore.update handle.entry (lastDrop s.now)).idleAppend
          handle.entry).heap[handle.entry]? =
            some { lastDrop s.now entry with inIdle := true } := by
        simp [present]
      rw [← stampReleased_dropReference] at node read
      have bound := ((listed.listed _ _ read).mp node).1
      have live : s.entries.get? entry.key = some handle.entry := by
        have same : (((s.toStore.update handle.entry (lastDrop s.now)).idleAppend
          handle.entry)).entries = s.entries := by simp
        rw [← stampReleased_dropReference] at same
        exact same ▸ bound
      simp [(core.store.live_at live present).undisposed] at doomed
  | releasedAgain h handle found spent =>
    intro other found' holding
    cases found.symm.trans found'
    simp [spent] at holding
  | shared | queued | releasedNone | releasedKey | drain | stop | sweep | missed | discarded
  | resumed | delivered | refuted | inserted | disposeSettled | start | gcKeyState | emitStats
  | timeout | clock | validating | returned | abandoned | breakerless | creating | failed
  | drained | unvalidated | passed | factoryCalled | factorySettled | execRejected | execLate
  | lateDisposeSettled | breakerChanged => trivial

/-- The idle list and the statistics are exact throughout a run exactly when nothing is revived. -/
theorem idleListExact_iff (options : PoolOptions) (actions : List (Action κ τ)) :
    Runs.Throughout (step options) IdleListExact (init options) actions ↔
      Runs.Guarded (step options) NoRevival (init options) actions := by
  -- One direction looks at a single step, the other is the invariant of a guarded run.
  constructor
  · exact Runs.Throughout.guarded (fun _ _ _ => core_step)
      (fun s action next core _ stepped after =>
        noRevival_of_listed core (step_effect stepped) after) (core_init options)
  · intro guarded
    have kept := guarded.throughout (fun s => Core s ∧ s.toStore.Exact)
      (fun s action next ⟨core, accurate⟩ met stepped =>
        ⟨core_step core stepped, (step_effect stepped).exact core met accurate⟩)
      ⟨core_init options, Store.exact_empty⟩
    exact kept.mono fun s ⟨core, accurate⟩ => idleListExact_of_exact core.store accurate

/-- A drain disposes of an idle entry during its validation, and its new holder releases it. -/
theorem idleListExact_revived :
    let options : PoolOptions := { max := 1, validate := true }
    let create : List (Action Nat Nat) :=
      [.acquire 7, .obtain 0, .create 0 .threw, .factoryCalled 0, .factorySettled 0 (some 70),
        .execSettled 0 (some 70), .deliver 0, .releaseHandle 0]
    ¬ Runs.Throughout (step options) IdleListExact (init options)
      (create ++ [.acquire 7, .obtain 1, .drain, .validated 1 (some true), .deliver 1,
        .releaseHandle 1]) := by
  -- The entry goes back to the list by its last release, though its disposal has begun.
  decide

end RefPool.State
