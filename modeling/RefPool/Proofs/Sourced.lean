import RefPool.Proofs.DisposedOnce
import RefPool.Proofs.Equipped
import RefPool.Proofs.Progress

/-! Every resource that a pool has dealings with was made by its factory, for the same key. -/

namespace RefPool

namespace State

variable {κ τ : Type} [DecidableEq κ] {options : PoolOptions} {s next : State κ τ}
  {action : Action κ τ} {e : EntryId}

/-! ### Calls of `dispose` are never taken back -/

/-- A turn of the reservation loop adds to the calls of `dispose` at most. -/
theorem SlotEffect.disposals {a : AcquireId} (effect : SlotEffect options s a next) :
    s.disposeCalls <+: next.disposeCalls := by
  -- Only an eviction calls `dispose`.
  cases effect with
  | evicted => exact List.prefix_append _ _
  | unbounded | refused | reserved | exhausted | parked => exact List.prefix_rfl

/-- `obtain` from the orphan lookup on adds to the calls of `dispose` at most. -/
theorem MissEffect.disposals {a : AcquireId} {key : κ}
    (effect : MissEffect options s a key next) : s.disposeCalls <+: next.disposeCalls := by
  -- Only the reservation loop remains to be looked at.
  cases effect with
  | resurrected | refused => exact List.prefix_rfl
  | slot _ _ _ effect => exact effect.disposals

/-- Dropping a reference adds to the calls of `dispose` at most. -/
theorem ReleaseEffect.disposals (effect : ReleaseEffect s e next) :
    s.disposeCalls <+: next.disposeCalls := by
  -- Only the last reference to a condemned entry calls `dispose`.
  cases effect with
  | retired => exact List.prefix_append _ _
  | ignored | dropped | freed => exact List.prefix_rfl

/-- A drain adds to the calls of `dispose` at most. -/
theorem disposals_drain (wf : s.toStore.WellFormed) :
    s.disposeCalls <+: s.drain.disposeCalls := by
  -- Condemning calls nothing, and an entry that nobody holds is disposed of.
  obtain ⟨last, waits, -, kept, -, same⟩ := drain_rule (s := s)
    (P := fun next _ => s.disposeCalls <+: next.disposeCalls) wf
    (fun _ _ _ _ _ kept _ _ _ => kept.trans (List.prefix_append _ _))
    (fun _ _ _ _ _ kept _ _ _ => kept) (fun _ _ _ _ _ kept _ _ _ => kept) List.prefix_rfl
  rw [same]
  exact kept

/-- Every step adds to the calls of `dispose` at most. -/
theorem Effect.disposals (wf : s.toStore.WellFormed) (effect : Effect options s action next) :
    s.disposeCalls <+: next.disposeCalls := by
  -- Few steps begin a disposal, and none forgets one.
  cases effect with
  | released h handle next found holding effect => exact effect.disposals
  | releasedKey key e next bound effect => exact effect.disposals
  | drain => exact disposals_drain wf
  | stop => exact disposals_drain (s := s.setClosed.stopTimers) wf
  | sweep =>
    exact (sweep_rule options (P := fun next => s.disposeCalls <+: next.disposeCalls) wf
      (fun _ _ _ _ kept _ _ _ => kept.trans (List.prefix_append _ _)) (fun _ _ kept => kept)
      List.prefix_rfl).2
  | missed a acquire after next called phase turn absent effect => exact effect.disposals
  | discarded a acquire live next called phase effect => exact effect.disposals
  | resumed a acquire w waiter next called phase found woken effect => exact effect.disposals
  | refuted | execLate => exact List.prefix_append _ _
  | shared | queued | releasedAgain | releasedNone | start | gcKeyState | emitStats | timeout
  | clock | validating | returned | abandoned | breakerless | creating | delivered | failed
  | drained | unvalidated | passed | factoryCalled | factorySettled | execRejected | inserted
  | disposeSettled | lateDisposeSettled | breakerChanged => exact List.prefix_rfl

/-! ### The resources of the entries -/

/-- Every entry has a resource that was handed over for its key. -/
def Stocked (s : State κ τ) : Prop :=
  ∀ entry ∈ s.heap, (entry.resource, entry.key) ∈ handedOver s.execs

omit [DecidableEq κ] in
/-- What was handed over stays so. -/
theorem Flow.handedOver_subset (flow : Flow s next action) :
    handedOver s.execs ⊆ handedOver next.execs := by
  -- An exec that settles was pending, and had nothing to hand over.
  cases flow with
  | still _ execs | called _ _ _ execs | landed _ _ _ _ _ execs => rw [execs]; exact fun _ => id
  | started a answer key execs =>
    rw [execs, handedOver, handedOver, List.filterMap_append]
    exact List.subset_append_left _ _
  | finished x answer exec found outstanding execs =>
    rw [execs]
    intro given inside
    exact (handedOver_pending found outstanding answer).mem_iff.mpr
      (List.mem_append_right _ inside)

/-- Every step leaves the entries with resources that were handed over for their keys. -/
theorem Effect.stocked (effect : Effect options s action next) (core : Core s)
    (ledger : Ledger next) (stocked : s.Stocked) : next.Stocked := by
  intro after inside
  obtain ⟨e, read⟩ := List.mem_iff_getElem?.mp inside
  cases found : s.heap[e]? with
  | some entry =>
    -- An older entry has the resource and the key that it had.
    obtain ⟨other, present, follows⟩ := (effect.grows core.store).entry e entry found
    cases read.symm.trans present
    rw [follows.resource, follows.key]
    exact (effect.flow core.store).handedOver_subset (stocked entry (List.mem_of_getElem? found))
  | none =>
    -- A new entry is undisposed, and the ledger knows where such entries come from.
    have later := List.getElem?_eq_none_iff.mp found
    have fresh : after.disposing = false := by
      rcases effect.same_or_inserted core with same | ⟨a, acquire, x, -, -, -, fresh⟩
      · have bounded := (List.getElem?_eq_some_iff.mp read).1
        omega
      · exact (fresh e after read later).2
    refine ledger.placed.mem_iff.mp (List.mem_append_right _ ?_)
    exact List.mem_map_of_mem (List.mem_filter.mpr ⟨inside, by simp [fresh]⟩)

end State

namespace ProtectedPool

variable {κ τ : Type} [DecidableEq κ] {options : PoolOptions}
  {settings : InMemoryCircuitBreakerOptions} {s next : ProtectedPool κ τ}
  {action : ProtectedAction κ τ} {resource : τ} {key : κ}

/-- A breaker that has recorded a resource had it from the factory call of its exec. -/
def Recorded (calls : List (FactoryCall τ)) (runs : List (BreakerRun τ)) : Prop :=
  ∀ (x : ExecId) run resource, runs[x]? = some run → run.stage = .recorded (some resource) →
    ∃ call ∈ calls, call.exec = x ∧ call.outcome.value? = some resource

/-- Where the resources of a pool with its breakers come from. -/
structure Sourced (s : ProtectedPool κ τ) : Prop where
  equipped : Equipped s
  ledger : s.pool.Ledger
  stocked : s.pool.Stocked
  recorded : Recorded s.pool.factoryCalls s.runs

/-- A new pool has no resources. -/
theorem sourced_init (options : PoolOptions) : Sourced (init options : ProtectedPool κ τ) where
  -- There are neither entries nor execs.
  equipped := equipped_init options
  ledger := State.ledger_init options
  stocked := by simp [State.Stocked, init, State.init, Store.empty]
  recorded := fun x run resource found => by simp [init] at found

omit [DecidableEq κ] in
/-- A run that begins has recorded nothing, and further factory calls take nothing back. -/
theorem Recorded.push {calls more : List (FactoryCall τ)} {runs : List (BreakerRun τ)}
    {fresh : BreakerRun τ} (recorded : Recorded calls runs) (kept : calls ⊆ more)
    (unrecorded : ∀ resource, fresh.stage ≠ .recorded (some resource)) :
    Recorded more (runs ++ [fresh]) := by
  intro x run resource found stage
  -- The older runs keep the calls that they recorded.
  rcases Arena.getElem?_push_cases found with ⟨-, rfl⟩ | before
  · exact absurd stage (unrecorded resource)
  · obtain ⟨call, inside, own, value⟩ := recorded x run resource before stage
    exact ⟨call, kept inside, own, value⟩

/-- Every step keeps track of where the resources come from. -/
theorem Effect.sourced (effect : Effect options settings s action next) (sourced : Sourced s) :
    Sourced next := by
  obtain ⟨equipped, ledger, stocked, recorded⟩ := sourced
  obtain ⟨moves, ran⟩ := effect.moves
  -- The pool of the breakers makes steps of its own, each of which keeps its books.
  have kept := Runs.run_invariant
    (fun pool : State κ τ => Core pool ∧ pool.Ledger ∧ pool.Stocked)
    (fun pool action next ⟨core, ledger, stocked⟩ stepped => by
      have effect := State.step_effect stepped
      have ledger' := effect.ledger core.store ledger
      exact ⟨State.core_step core stepped, ledger', effect.stocked core ledger' stocked⟩)
    ⟨equipped.core, ledger, stocked⟩ ran
  refine ⟨effect.equipped equipped, kept.2.1, kept.2.2, ?_⟩
  cases effect with
  | passed action pool foreign stepped =>
    show Recorded pool.factoryCalls s.runs
    cases (State.step_effect stepped).flow equipped.core.store with
    | still _ execs calls =>
      rw [calls]
      exact recorded
    | landed c answer call found outstanding execs calls =>
      intro x run resource present stage
      obtain ⟨other, inside, own, value⟩ := recorded x run resource present stage
      exact ⟨other, by rw [calls]; exact State.mem_land answer found outstanding inside value, own,
        value⟩
    | started | called | finished => cases foreign
  | called a acquire bank b breaker after heard creation stepped =>
    obtain ⟨objects, counts, events, rfl, -⟩ := heard_eq creation.told
    exact recorded.push (List.subset_append_left _ _) (by simp)
  | refused a acquire bank b breaker after admission heard creation =>
    obtain ⟨objects, counts, events, rfl, -⟩ := heard_eq creation.told
    exact recorded.push (fun _ => id) (by simp)
  | recorded x run c call outcome breaker heard found stage made landed known told =>
    obtain ⟨objects, counts, events, rfl, -⟩ := heard_eq told
    intro y other resource present stage'
    rcases Arena.getElem?_modify_cases present with ⟨rfl, old, before, rfl⟩ | ⟨-, before⟩
    · -- The exec awaited this very call.
      obtain ⟨⟨awaited, made', own⟩, -⟩ := equipped.linked.awaited x run c found stage
      cases made.symm.trans made'
      obtain rfl : outcome = some resource := by simpa using stage'
      exact ⟨call, List.mem_of_getElem? made, own, by rw [landed, value?_ofAnswer]⟩
    · exact recorded y other resource before stage'
  | settled x run outcome pool found stage stepped =>
    show Recorded pool.factoryCalls s.runs
    cases (State.step_effect stepped).flow equipped.core.store with
    | still _ execs calls | finished _ _ _ _ _ _ calls =>
      rw [calls]
      exact recorded

/-- Every step adds to the calls of `dispose` at most. -/
theorem Effect.disposals (effect : Effect options settings s action next) (sourced : Sourced s) :
    s.pool.disposeCalls <+: next.pool.disposeCalls := by
  -- The step is a run of the pool, whose steps each add to the calls.
  obtain ⟨moves, ran⟩ := effect.moves
  exact (Runs.run_invariant
    (fun pool : State κ τ => Core pool ∧ s.pool.disposeCalls <+: pool.disposeCalls)
    (fun pool action next ⟨core, kept⟩ stepped => ⟨State.core_step core stepped,
      kept.trans ((State.step_effect stepped).disposals core.store)⟩)
    ⟨sourced.equipped.core, List.prefix_rfl⟩ ran).2

/-! ### Resources and the factory calls that made them -/

namespace Sourced

/-- An exec that has fulfilled did so with what a factory call of its own made. -/
theorem made_of_fulfilled {x : ExecId} {exec : Exec κ τ} (sourced : Sourced s)
    (found : s.pool.execs[x]? = some exec) (fulfilled : exec.outcome.value? = some resource) :
    ∃ call ∈ s.pool.factoryCalls, call.exec = x ∧ call.outcome.value? = some resource := by
  -- The exec settled with what its breaker had recorded.
  have linked := sourced.equipped.linked
  obtain ⟨run, present⟩ : ∃ run, s.runs[x]? = some run :=
    ⟨_, List.getElem?_eq_getElem (linked.aligned ▸ (List.getElem?_eq_some_iff.mp found).1)⟩
  rcases linked.yielded x run exec present found with outstanding | settled
  · rw [outstanding] at fulfilled
    cases fulfilled
  · rw [settled, value?_ofAnswer] at fulfilled
    cases stage : run.stage with
    | refused | awaiting => simp [stage, ExecStage.yield] at fulfilled
    | recorded outcome =>
      rw [stage] at fulfilled
      obtain rfl : outcome = some resource := fulfilled
      exact sourced.recorded x run resource present stage

/-- What was handed over for a key was made by a factory call for that key. -/
theorem made_of_handedOver (sourced : Sourced s)
    (handed : (resource, key) ∈ handedOver s.pool.execs) :
    ∃ call ∈ s.pool.factoryCalls, call.outcome.value? = some resource ∧
      ∃ exec, s.pool.execs[call.exec]? = some exec ∧ exec.key = key := by
  obtain ⟨exec, inside, value⟩ := List.mem_filterMap.mp handed
  obtain ⟨x, found⟩ := List.mem_iff_getElem?.mp inside
  obtain ⟨given, fulfilled, pair⟩ := Option.map_eq_some_iff.mp value
  obtain ⟨rfl, rfl⟩ : given = resource ∧ exec.key = key := by simpa using pair
  -- The exec has its key and leads back to the call.
  obtain ⟨call, made, own, value⟩ := sourced.made_of_fulfilled found fulfilled
  exact ⟨call, made, value, exec, own ▸ found, rfl⟩

/-- Distinct resources come from where the disposals of the pool expect them to come from. -/
theorem provenance (sourced : Sourced s) (distinct : s.pool.made.Nodup) :
    State.Provenance s.pool :=
  -- What an exec fulfilled with was made by its factory call.
  ⟨distinct, fun _ _ _ found fulfilled => sourced.made_of_fulfilled found fulfilled⟩

/-- Everything that the pool keeps track of was made. -/
theorem tracked_subset (sourced : Sourced s) : s.pool.tracked ⊆ s.pool.made := by
  -- What is tracked was handed over, and what was handed over was made.
  intro resource inside
  have handed := sourced.ledger.tracked_perm.mem_iff.mp inside
  obtain ⟨⟨_, key⟩, given, rfl⟩ := List.mem_map.mp handed
  obtain ⟨call, made, value, -⟩ := sourced.made_of_handedOver given
  exact List.mem_filterMap.mpr ⟨call, made, value⟩

/-- Nothing that the pool keeps track of is tracked twice, if the resources are distinct. -/
theorem tracked_nodup (sourced : Sourced s) (distinct : s.pool.made.Nodup) :
    s.pool.tracked.Nodup :=
  -- What is tracked is what was handed over, in some order.
  sourced.ledger.tracked_perm.nodup_iff.mpr (sourced.provenance distinct).yielded_nodup

/-- Once everything has settled, the pool keeps track of exactly the resources that were made. -/
theorem tracked_perm_made (sourced : Sourced s) (distinct : s.pool.made.Nodup)
    (settled : s.pool.Settled) : s.pool.tracked.Perm s.pool.made := by
  -- Neither list has duplicates, and each is contained in the other.
  have known := List.subperm_of_subset (sourced.tracked_nodup distinct) sourced.tracked_subset
  have handed : s.pool.made.Subperm s.pool.yielded :=
    State.due_of_settled settled ▸ sourced.equipped.handsOver
  exact known.antisymm (sourced.ledger.tracked_perm.subperm_left.mpr handed)

end Sourced

end ProtectedPool

end RefPool
