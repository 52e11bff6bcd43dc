import RefPool.Proofs.History

/-! Every resource a breaker handed over is counted, and is disposed of once or still undisposed. -/

namespace RefPool

variable {κ τ : Type}

/-- What an entry says about its resource: whose it is, and how far its disposal has come. -/
def Entry.fate (entry : Entry κ τ) : (τ × κ) × Bool × Bool :=
  ((entry.resource, entry.key), entry.disposing, entry.disposed)

/-- The value of a fulfilled promise. -/
def Outcome.value? : Outcome τ → Option τ
  | .fulfilled value => some value
  | .pending | .rejected => none

/-- A promise that settles with an answer has the answer as its value. -/
@[simp] theorem value?_ofAnswer (answer : Option τ) :
    (Outcome.ofAnswer answer).value? = answer := by
  -- An answer is a resource or a rejection.
  cases answer <;> rfl

/-- The resources of the entries whose disposal has not begun, with their keys. -/
def undisposedResources (heap : List (Entry κ τ)) : List (τ × κ) :=
  (heap.filter fun entry => !entry.disposing).map fun entry => (entry.resource, entry.key)

/-- The resources handed over by fulfilled execs, with the keys they were made for. -/
def handedOver (execs : List (Exec κ τ)) : List (τ × κ) :=
  execs.filterMap fun exec => exec.outcome.value?.map fun value => (value, exec.key)

/-- The fates of all entries determine the undisposed resources. -/
theorem undisposedResources_eq (heap : List (Entry κ τ)) :
    undisposedResources heap =
      ((heap.map Entry.fate).filter fun fate => !fate.2.1).map Prod.fst := by
  -- The filter and the projection read nothing of an entry but its fate.
  simp only [undisposedResources, List.filter_map, List.map_map]
  rfl

/-- The fates of all entries determine how many are disposed. -/
theorem countP_disposed_eq (heap : List (Entry κ τ)) :
    heap.countP Entry.disposed = (heap.map Entry.fate).countP fun fate => fate.2.2 := by
  -- The flag is a part of the fate.
  rw [List.countP_map]
  rfl

namespace State

variable {s next : State κ τ}

/-- What every counter and every dispose call accounts for. -/
structure Ledger (s : State κ τ) : Prop where
  created : s.counters.created = s.heap.length
  disposed : s.counters.disposed = s.heap.countP Entry.disposed
  /-- Each resource handed over was passed to `dispose` once, or is undisposed. -/
  placed : (s.disposeCalls ++ undisposedResources s.heap).Perm (handedOver s.execs)

/-- A step that concerns no resource: no disposal begins or ends, and none is handed over. -/
structure Quiet (s next : State κ τ) : Prop where
  fates : next.heap.map Entry.fate = s.heap.map Entry.fate
  created : next.counters.created = s.counters.created
  disposed : next.counters.disposed = s.counters.disposed
  calls : next.disposeCalls = s.disposeCalls
  handed : handedOver next.execs = handedOver s.execs

namespace Quiet

/-- Assigning other fields of an entry is quiet. -/
theorem reassign (e : EntryId) (assign : Entry κ τ → Entry κ τ)
    (heap : next.heap = s.heap.modify e assign)
    (same : ∀ entry, s.heap[e]? = some entry → (assign entry).fate = entry.fate)
    (created : next.counters.created = s.counters.created)
    (disposed : next.counters.disposed = s.counters.disposed)
    (calls : next.disposeCalls = s.disposeCalls) (execs : next.execs = s.execs) :
    Quiet s next where
  -- The fate of an entry is all that the ledger reads of it.
  fates := by
    rw [heap]
    exact Arena.map_modify_of_eq Entry.fate same
  created := created
  disposed := disposed
  calls := calls
  handed := by rw [execs]

end Quiet

/-- A quiet step keeps the ledger. -/
theorem Ledger.quiet (ledger : Ledger s) (quiet : Quiet s next) : Ledger next where
  -- Each column is a function of the fates, the counters or the calls, and these are the same.
  created := by
    have length := congrArg List.length quiet.fates
    rw [List.length_map, List.length_map] at length
    rw [quiet.created, ledger.created, length]
  disposed := by
    rw [quiet.disposed, ledger.disposed, countP_disposed_eq, countP_disposed_eq, quiet.fates]
  placed := by
    have same : undisposedResources next.heap = undisposedResources s.heap := by
      rw [undisposedResources_eq, undisposedResources_eq, quiet.fates]
    rw [quiet.calls, quiet.handed, same]
    exact ledger.placed

/-- Starting a disposal moves one resource from the undisposed ones to the dispose calls. -/
theorem Ledger.dispose (ledger : Ledger s) (e : EntryId) : Ledger (s.dispose e) := by
  -- A disposal that has begun already is not begun again.
  cases fresh : s.toStore.toDispose e with
  | none =>
    have idle : s.dispose e = s := by simp [State.dispose, Store.beginDispose, fresh]
    rw [idle]
    exact ledger
  | some entry =>
    obtain ⟨found, live⟩ := Option.filter_eq_some_iff.mp fresh
    simp only [Bool.not_eq_eq_eq_not, Bool.not_true, Bool.and_eq_true] at live
    have heap : (s.dispose e).heap =
        s.heap.modify e fun entry => { entry with disposing := true } := by
      simp [State.dispose, Store.beginDispose, fresh]
    have calls : (s.dispose e).disposeCalls =
        s.disposeCalls ++ [(entry.resource, entry.key)] := by
      simp [State.dispose, fresh]
    constructor
    · rw [heap, List.length_modify]
      exact ledger.created
    · have same : (s.heap.modify e fun entry => { entry with disposing := true }).countP
          Entry.disposed = s.heap.countP Entry.disposed :=
        Arena.countP_modify_of_eq Entry.disposed fun _ _ => rfl
      rw [heap, same]
      exact ledger.disposed
    -- The resource leaves the undisposed ones as it enters the calls.
    · have moved := (Arena.filter_modify_perm
        (fun entry : Entry κ τ => { entry with disposing := true })
        (fun entry => !entry.disposing) found (by simp [live.2]) (by simp)).map
          fun entry : Entry κ τ => (entry.resource, entry.key)
      rw [heap, calls, List.append_assoc]
      exact (moved.symm.append_left _).trans ledger.placed

variable [DecidableEq κ] {options : PoolOptions} {e : EntryId}

/-- Evicting an entry keeps the ledger. -/
theorem Ledger.evict (ledger : Ledger s) (e : EntryId) (reason : EvictReason) :
    Ledger (s.evict e reason) := by
  -- Unlinking is quiet, so only the start of the disposal counts.
  have quiet : Quiet s ({ s with toStore := s.toStore.unlink e }.countEviction e reason) :=
    .reassign e (fun entry => { entry with inIdle := false }) (Store.unlink_heap s.toStore e)
      (fun _ _ => rfl) rfl rfl rfl rfl
  exact (ledger.quiet quiet).dispose e

/-- A turn of the reservation loop keeps the ledger. -/
theorem SlotEffect.ledger {a : AcquireId} (effect : SlotEffect options s a next)
    (ledger : Ledger s) : Ledger next := by
  -- Only an eviction begins a disposal.
  cases effect with
  | evicted victim =>
    have quiet : Quiet (s.evict victim .lru)
        ({ s.evict victim .lru with toGate := s.toGate.reserve }.setPhase a .granted) :=
      ⟨rfl, rfl, rfl, rfl, rfl⟩
    exact (ledger.evict victim .lru).quiet quiet
  | unbounded | refused | reserved | exhausted | parked =>
    exact ledger.quiet ⟨rfl, rfl, rfl, rfl, rfl⟩

/-- `obtain` from the orphan lookup on keeps the ledger. -/
theorem MissEffect.ledger {a : AcquireId} {key : κ} (effect : MissEffect options s a key next)
    (ledger : Ledger s) : Ledger next := by
  -- A resurrection disposes of nothing.
  cases effect with
  | resurrected | refused => exact ledger.quiet ⟨rfl, rfl, rfl, rfl, rfl⟩
  | slot _ _ _ effect =>
    exact effect.ledger (ledger.quiet ⟨rfl, rfl, rfl, rfl, rfl⟩)

/-- Dropping a reference keeps the ledger. -/
theorem ReleaseEffect.ledger (effect : ReleaseEffect s e next) (ledger : Ledger s) :
    Ledger next := by
  cases effect with
  | ignored => exact ledger
  | dropped =>
    exact ledger.quiet (.reassign e (fun entry => { entry with refCount := entry.refCount - 1 }) rfl
      (fun _ _ => rfl) rfl rfl rfl rfl)
  | retired =>
    -- The entry is stamped and removed quietly before its disposal starts.
    have quiet : Quiet s { (s.dropReference e).stampReleased e with
        toStore := ((s.dropReference e).stampReleased e).toStore.removeEntry e } := by
      refine .reassign e (fun entry => { lastDrop s.now entry with inIdle := false }) ?_
        (fun _ _ => rfl) rfl rfl rfl rfl
      show (((s.dropReference e).stampReleased e).toStore.removeEntry e).heap = _
      rw [stampReleased_dropReference]
      simp [List.modify_modify_eq, Function.comp_def]
    exact (ledger.quiet quiet).dispose e
  | freed =>
    refine ledger.quiet (.reassign e (fun entry => { lastDrop s.now entry with inIdle := true }) ?_
      (fun _ _ => rfl) rfl rfl rfl rfl)
    show (((s.dropReference e).stampReleased e).toStore.idleAppend e).heap = _
    rw [stampReleased_dropReference]
    exact Store.free_heap s.toStore e (lastDrop s.now)

/-- A drain keeps the ledger. -/
theorem ledger_drain (wf : s.toStore.WellFormed) (ledger : Ledger s) : Ledger s.drain := by
  -- Orphaning and condemning are quiet, and an unheld entry is disposed of.
  obtain ⟨last, waits, -, kept, -, same⟩ := drain_rule (s := s) (P := fun s _ => Ledger s) wf
    (fun s _ e entry _ ledger _ _ _ => by
      have quiet : Quiet s { s with toStore := s.toStore.unlink e } :=
        .reassign e (fun entry => { entry with inIdle := false }) (Store.unlink_heap s.toStore e)
          (fun _ _ => rfl) rfl rfl rfl rfl
      exact (ledger.quiet quiet).dispose e)
    (fun s _ e entry _ ledger _ _ _ => ledger.quiet
      (.reassign e _ (condemnHeld_heap s e entry.key) (fun _ _ => rfl) rfl rfl rfl rfl))
    (fun s _ e entry _ ledger _ _ _ => ledger.quiet
      (.reassign e _ (condemnOrphan_heap s e) (fun _ _ => rfl) rfl rfl rfl rfl))
    (ledger.quiet ⟨rfl, rfl, rfl, rfl, rfl⟩)
  rw [same]
  exact kept.quiet ⟨rfl, rfl, rfl, rfl, rfl⟩

/-- A sweep keeps the ledger. -/
theorem ledger_sweep (wf : s.toStore.WellFormed) (ledger : Ledger s) :
    Ledger (s.sweep options) := by
  -- Each turn disposes of one entry and wakes a waiter, which is quiet.
  exact (sweep_rule options (P := fun s => Ledger s) wf
    (fun _ node _ _ ledger _ _ _ =>
      (ledger.evict node .ttl).quiet ⟨rfl, rfl, rfl, rfl, rfl⟩)
    (fun _ _ ledger => ledger.quiet ⟨rfl, rfl, rfl, rfl, rfl⟩) ledger).2

omit [DecidableEq κ] in
/-- A pending exec has handed nothing over. -/
theorem handedOver_pending {execs : List (Exec κ τ)} {x : ExecId} {exec : Exec κ τ}
    (found : execs[x]? = some exec) (outstanding : exec.outcome = .pending) (value : Option τ) :
    (handedOver (execs.modify x fun exec => { exec with outcome := .ofAnswer value })).Perm
      ((value.map fun value => (value, exec.key)).toList ++ handedOver execs) := by
  -- Only the exec that settles hands over something else than before.
  have moved := Arena.filterMap_modify_perm
    (fun exec : Exec κ τ => { exec with outcome := .ofAnswer value })
    (fun exec => exec.outcome.value?.map fun value => (value, exec.key)) found
  have nothing : exec.outcome.value? = none := by rw [outstanding]; rfl
  simp only [nothing, value?_ofAnswer, Option.map_none, Option.toList_none,
    List.nil_append] at moved
  exact moved

/-- Every step keeps the ledger. -/
theorem Effect.ledger {action : Action κ τ} (wf : s.toStore.WellFormed)
    (effect : Effect options s action next) (ledger : Ledger s) : Ledger next := by
  -- A resource is handed over, disposed of or inserted by few steps, and the others are quiet.
  cases effect with
  | shared key e =>
    exact ledger.quiet (.reassign e _ (Store.checkout_heap s.toStore e) (fun _ _ => rfl) rfl rfl rfl
      rfl)
  | delivered a acquire e =>
    exact ledger.quiet (.reassign e _ (Store.checkout_heap s.toStore e) (fun _ _ => rfl) rfl rfl rfl
      rfl)
  | released h handle next found holding effect =>
    exact effect.ledger (ledger.quiet ⟨rfl, rfl, rfl, rfl, rfl⟩)
  | releasedKey key e next bound effect => exact effect.ledger ledger
  | drain => exact ledger_drain wf ledger
  | stop =>
    exact ledger_drain (s := s.setClosed.stopTimers) wf
      (ledger.quiet ⟨rfl, rfl, rfl, rfl, rfl⟩)
  | sweep => exact ledger_sweep wf ledger
  | missed a acquire after next called phase turn absent effect => exact effect.ledger ledger
  | discarded a acquire live next called phase effect => exact effect.ledger ledger
  | resumed a acquire w waiter next called phase found woken effect => exact effect.ledger ledger
  | creating a acquire =>
    exact ledger.quiet ⟨rfl, rfl, rfl, rfl, by simp [handedOver, Outcome.value?, setPhase]⟩
  | refuted a acquire live =>
    have quiet : Quiet s { s with toStore := s.toStore.removeEntry live } :=
      .reassign live _ (Store.removeEntry_heap s.toStore live) (fun _ _ => rfl) rfl rfl rfl rfl
    exact ((ledger.quiet quiet).dispose live).quiet ⟨rfl, rfl, rfl, rfl, rfl⟩
  | execRejected x exec found outstanding =>
    have handed := handedOver_pending found outstanding none
    exact ⟨ledger.created, ledger.disposed, ledger.placed.trans handed.symm⟩
  | execLate x exec resource found outstanding =>
    have handed := handedOver_pending found outstanding (some resource)
    -- A resource that comes late is handed over and passed to `dispose` at once.
    refine ⟨ledger.created, ledger.disposed, ?_⟩
    show (s.disposeCalls ++ [(resource, exec.key)] ++ undisposedResources s.heap).Perm _
    rw [List.append_assoc]
    exact (List.perm_middle.trans (ledger.placed.cons _)).trans handed.symm
  | inserted x exec resource found outstanding =>
    have handed := handedOver_pending found outstanding (some resource)
    have heap := Store.insert_heap s.toStore exec.key resource s.now
    constructor
    · show s.counters.created + 1 = (s.toStore.insert exec.key resource s.now).heap.length
      rw [heap, ledger.created]
      simp
    · show s.counters.disposed = (s.toStore.insert exec.key resource s.now).heap.countP _
      rw [heap, ledger.disposed]
      simp
    · show (s.disposeCalls ++ undisposedResources
        (s.toStore.insert exec.key resource s.now).heap).Perm _
      -- The inserted resource is the last of the undisposed ones.
      have held : undisposedResources (s.toStore.insert exec.key resource s.now).heap =
          undisposedResources s.heap ++ [(resource, exec.key)] := by
        simp [heap, undisposedResources]
      rw [held, ← List.append_assoc]
      exact (List.perm_append_singleton _ _).trans ((ledger.placed.cons _).trans handed.symm)
  | disposeSettled e entry found started unfinished =>
    have heap := finishDispose_heap options s e entry
    constructor
    · rw [heap, List.length_modify]
      exact ledger.created
    · have counted := Arena.countP_modify (fun entry : Entry κ τ =>
        { entry with disposed := true, disposeWaiters := [] }) Entry.disposed found
      have disposed := ledger.disposed
      rw [heap]
      show s.counters.disposed + 1 = _
      simp only [unfinished, Bool.false_eq_true, if_false, if_true] at counted
      omega
    -- The end of a disposal is not its beginning, so the undisposed resources are the same.
    · have held : undisposedResources (s.finishDispose options e entry).heap =
          undisposedResources s.heap := by
        have same : (s.heap.modify e fun entry =>
            { entry with disposed := true, disposeWaiters := [] }).map
              (fun entry => ((entry.resource, entry.key), entry.disposing)) =
            s.heap.map fun entry => ((entry.resource, entry.key), entry.disposing) :=
          Arena.map_modify_of_eq _ fun _ _ => rfl
        have view (heap : List (Entry κ τ)) : undisposedResources heap =
            ((heap.map fun entry => ((entry.resource, entry.key), entry.disposing)).filter
              fun fate => !fate.2).map Prod.fst := by
          simp only [undisposedResources, List.filter_map, List.map_map]
          rfl
        rw [view, view, heap, same]
      rw [held]
      exact ledger.placed
  | queued | releasedAgain | releasedNone | start | gcKeyState | emitStats | timeout | clock
  | validating | returned | abandoned | breakerless | failed | drained | unvalidated | passed
  | factoryCalled | factorySettled | lateDisposeSettled | breakerChanged =>
    exact ledger.quiet ⟨rfl, rfl, rfl, rfl, rfl⟩

omit [DecidableEq κ] in
/-- A new pool has nothing to account for. -/
theorem ledger_init (options : PoolOptions) : Ledger (init options : State κ τ) :=
  -- There are neither entries nor calls of `dispose`.
  ⟨rfl, rfl, .refl _⟩

end State

end RefPool
