import RefPool.Proofs.Ceiling
import RefPool.Proofs.Clients

/-! An adapter that is never drained has `max` clients open at most, and one for each key. -/

namespace RefPool

namespace State

variable {κ τ : Type} [DecidableEq κ] {options : PoolOptions} {s next : State κ τ}
  {action : Action κ τ}

/-- A pool that was never drained is within its bound, for reasons that every step keeps. -/
structure Roomy (options : PoolOptions) (s : State κ τ) : Prop where
  core : Core s
  undrained : Undrained s.heap s.acquires
  accurate : s.toStore.Exact
  booked : 0 < options.max → s.Booked
  within : 0 < options.max → s.WithinMax options

/-- A new pool is empty. -/
theorem roomy_init (options : PoolOptions) : Roomy options (init options : State κ τ) where
  -- Nothing is live, reserved or drained yet.
  core := core_init options
  undrained := undrained_init options
  accurate := Store.exact_empty
  booked := fun _ => booked_init options
  within := by
    intro bounded
    show (0 : Int) + 0 ≤ options.max
    omega

/-- Before the first drain there is room for whatever a step adds. -/
theorem Roomy.roomFor (roomy : Roomy options s) (action : Action κ τ) :
    s.RoomFor options action where
  -- There are no orphans to be resurrected, and what is on the idle list is live.
  resurrection := by
    intro key _ orphaned
    have none := unorphaned_of_undrained roomy.core.store roomy.undrained key
    simp [OrderedMap.has, none] at orphaned
  eviction := by
    intro _ _ _ victim chosen entry found
    have listed := List.mem_of_find?_eq_some chosen
    have bound := ((roomy.accurate.each victim entry found).listed.mp listed).1
    simp [OrderedMap.has, bound]

/-- Every step but a drain keeps a pool within its bound. -/
theorem Roomy.step (roomy : Roomy options s) (undrained : action ≠ .drain ∧ action ≠ .stop)
    (stepped : s.step options action = some next) : Roomy options next := by
  -- Each part of the invariant has a step lemma of its own.
  have effect := step_effect stepped
  exact
    { core := core_step roomy.core stepped
      undrained := effect.undrained roomy.core roomy.undrained undrained
      accurate := effect.exact roomy.core (noRevival_of_undrained roomy.undrained action)
        roomy.accurate
      booked := fun bounded => effect.booked roomy.core bounded (roomy.booked bounded)
      within := fun bounded =>
        (effect.ceiling_iff bounded roomy.core (roomy.within bounded)).mpr (roomy.roomFor action) }

/-- The undisposed entries of a pool that was never drained are the live ones. -/
theorem Roomy.size_entries (roomy : Roomy options s) :
    (undisposedResources s.heap).length = s.entries.size := by
  have sizes := size_bound roomy.core.store roomy.accurate
  -- There are no orphans before the first drain.
  rw [size_orphans_of_undrained roomy.core.store roomy.undrained, Nat.add_zero] at sizes
  rw [sizes, undisposedResources, List.length_map, List.countP_eq_length_filter]

end State

/-- The outcomes that are pending or fulfilled are the pending ones and those with a value. -/
theorem Outcome.countP_alive {α : Type} (outcomes : List (Outcome α)) :
    outcomes.countP (fun outcome => outcome.isPending || outcome.value?.isSome) =
      outcomes.countP Outcome.isPending + outcomes.countP fun outcome => outcome.value?.isSome := by
  -- No outcome is both.
  induction outcomes with
  | nil => rfl
  | cons head rest ih =>
    rw [List.countP_cons, List.countP_cons, List.countP_cons, ih]
    cases head <;> simp [Outcome.isPending, Outcome.value?] <;> omega

/-- What the factory makes, or has made, is awaited by a pending exec or was handed over. -/
theorem ProtectedPool.Equipped.made_le {κ τ : Type} [DecidableEq κ] {s : ProtectedPool κ τ}
    (equipped : Equipped s) :
    s.pool.factoryCalls.countP (fun call => call.outcome.isPending) + s.pool.made.length ≤
      s.pool.execs.countP (fun exec => exec.outcome.isPending) + s.pool.yielded.length := by
  have linked := equipped.linked
  -- The exec of a call that has not failed has not failed either.
  have alive : s.pool.factoryCalls.countP
        (fun call => call.outcome.isPending || call.outcome.value?.isSome) ≤
      s.pool.execs.countP fun exec => exec.outcome.isPending || exec.outcome.value?.isSome := by
    refine Arena.countP_le_countP FactoryCall.exec (fun c call found active => ?_)
      fun c c' call call' found found' _ _ same => linked.apart found found' same
    obtain ⟨run, present, follows⟩ := linked.followed c call found
    have bounded := linked.aligned ▸ linked.bounded (List.mem_of_getElem? found)
    obtain ⟨exec, there⟩ : ∃ exec, s.pool.execs[call.exec]? = some exec :=
      ⟨_, List.getElem?_eq_getElem bounded⟩
    refine ⟨exec, there, ?_⟩
    cases stage : run.stage with
    | refused => simp [stage, ExecStage.Follows] at follows
    | awaiting awaited =>
      obtain ⟨-, exec', there', outstanding⟩ := linked.awaited _ run _ present stage
      cases there.symm.trans there'
      simp [outstanding, Outcome.isPending]
    | recorded answer =>
      rw [stage] at follows
      rcases linked.yielded _ run exec present there with outstanding | settled
      · simp [outstanding, Outcome.isPending]
      · rw [settled, stage, ExecStage.yield, ← show call.outcome = _ from follows]
        exact active
  -- Promises that have not failed are pending, or have a value.
  have calls := Outcome.countP_alive (s.pool.factoryCalls.map FactoryCall.outcome)
  have execs := Outcome.countP_alive (s.pool.execs.map Exec.outcome)
  simp only [List.countP_map, Function.comp_def] at calls execs
  have made : s.pool.made.length =
      s.pool.factoryCalls.countP fun call => call.outcome.value?.isSome :=
    List.length_filterMap_eq_countP
  have yielded : s.pool.yielded.length =
      s.pool.execs.countP fun exec => exec.outcome.value?.isSome := by
    rw [State.yielded, List.length_map, handedOver, List.length_filterMap_eq_countP]
    simp
  omega

namespace AdaptedPool

variable {κ : Type} [DecidableEq κ] {options : PoolOptions}
  {settings : InMemoryCircuitBreakerOptions} {adapter : Adapter} {s next : AdaptedPool κ}
  {action : AdapterAction κ} {client : ClientId}

/-- The clients that were constructed and have not been closed. -/
def unclosed (s : AdaptedPool κ) : List ClientId :=
  (List.range s.clients.length).filter fun client => client ∉ s.closes

/-- The bound is one on the clients that are not closed. -/
def WithinBudget (options : PoolOptions) (s : AdaptedPool κ) : Prop :=
  (s.unclosed.length : Int) ≤ options.max

omit [DecidableEq κ] in
/-- Every client that was constructed is closed or not. -/
theorem ClosesOnce.length_clients (closes : ClosesOnce s) :
    s.clients.length = s.closes.length + s.unclosed.length := by
  have parts := List.length_eq_length_filter_add (l := List.range s.clients.length)
    (fun client => decide (client ∈ s.closes))
  -- The closed clients are distinct, and each of them was constructed.
  have closed : ((List.range s.clients.length).filter
      fun client => decide (client ∈ s.closes)).Perm s.closes := by
    refine (List.perm_ext_iff_of_nodup (List.nodup_range.filter _)
      (List.nodup_append.mp closes.once).1).mpr fun client => ?_
    rw [List.mem_filter, List.mem_range, decide_eq_true_eq]
    exact ⟨And.right, fun inside =>
      ⟨closes.constructed client (List.mem_append_left _ inside), inside⟩⟩
  rw [List.length_range, closed.length_eq] at parts
  simpa [unclosed] using parts

/-- Clients that the factory opens are in calls of the factory that go on. -/
theorem Accounted.unopened_le (accounted : Accounted adapter s) :
    (s.makings.filterMap Making.unopened).length ≤
      s.system.pool.factoryCalls.countP fun call => call.outcome.isPending := by
  -- The pool knows how far the calls of the factory have come.
  have pending := congrArg (List.countP Outcome.isPending) accounted.follows
  rw [List.countP_map, List.countP_map] at pending
  rw [List.length_filterMap_eq_countP]
  refine Nat.le_trans (List.countP_mono_left fun making _ opening => ?_) (Nat.le_of_eq pending.symm)
  cases making <;> simp_all [Making.unopened, Making.outcome, Outcome.isPending]

/-- Clients that are not closed are in stock, or belong to creations that have a reservation. -/
theorem Accounted.withinBudget (accounted : Accounted adapter s)
    (bounded : 0 < options.max) (roomy : s.system.pool.Roomy options) :
    s.WithinBudget options := by
  have clients := accounted.closesOnce.length_clients
  -- A client is given up, made, or still to be opened.
  have places := accounted.perm_clients.length_eq
  have closes := accounted.closes_perm.length_eq
  have tracked := accounted.sourced.ledger.tracked_perm.length_eq
  have made := accounted.sourced.equipped.made_le
  have unopened := accounted.unopened_le
  have reserved := State.pending_le_reservations roomy.core
  have stock : s.inStock.length = s.system.pool.entries.size := by
    rw [inStock, List.length_map, roomy.size_entries]
  simp only [List.length_append, List.length_range] at places closes
  have booked : s.system.pool.reserved = reservations s.system.pool.acquires :=
    roomy.booked bounded
  have within : (s.system.pool.entries.size : Int) + s.system.pool.reserved ≤ options.max :=
    roomy.within bounded
  unfold WithinBudget
  omega

omit [DecidableEq κ] in
/-- Neither a breaker nor the factory drains the pool. -/
theorem undrained_of_other {own : Action κ ClientId}
    (other : (own.ofBreaker || (ProtectedAction.pool own).ofFactory) = true) :
    own ≠ .drain ∧ own ≠ .stop := by
  -- The actions of breakers and factories are other actions.
  constructor <;> rintro rfl <;> cases other

/-- Every step of an adapter but a drain keeps its pool within its bound. -/
theorem roomy_step (roomy : s.system.pool.Roomy options)
    (undrained : action ≠ .system (.pool .drain) ∧ action ≠ .system (.pool .stop))
    (stepped : s.step options settings adapter action = some next) :
    next.system.pool.Roomy options := by
  refine kept_of_pool (State.Roomy options) (fun _ own => own ≠ .drain ∧ own ≠ .stop)
    (fun _ _ _ roomy undrained led => roomy.step undrained led)
    (fun _ _ other => undrained_of_other other) (fun own same => ?_) roomy stepped
  -- What the pool itself is asked for is no drain by assumption.
  subst same
  simpa using undrained

/-- The pool of an adapter that is never drained stays within its bound. -/
theorem roomy_throughout (options : PoolOptions) (settings : InMemoryCircuitBreakerOptions)
    (adapter : Adapter) (actions : List (AdapterAction κ))
    (undrained : ∀ action ∈ actions,
      action ≠ .system (.pool .drain) ∧ action ≠ .system (.pool .stop)) :
    Runs.Throughout (step options settings adapter)
      (fun s => Accounted adapter s ∧ s.system.pool.Roomy options) (init options) actions := by
  have guarded : Runs.Guarded (step options settings adapter)
      (fun _ action => action ≠ .system (.pool .drain) ∧ action ≠ .system (.pool .stop))
      (init options) actions := Runs.guarded_of_forall undrained
  -- The clients are accounted for in every run.
  exact (accounted_throughout options settings adapter actions).both
    (guarded.throughout (fun s : AdaptedPool κ => s.system.pool.Roomy options)
      (fun _ _ _ roomy undrained stepped => roomy_step roomy undrained stepped)
      (State.roomy_init options))

/--
A pool that an adapter created, and that is never drained, has at most `max` clients that were
constructed and not closed, whichever of their factories are still at work.
-/
theorem withinBudget_throughout (options : PoolOptions) (bounded : 0 < options.max)
    (settings : InMemoryCircuitBreakerOptions) (adapter : Adapter)
    (actions : List (AdapterAction κ))
    (undrained : ∀ action ∈ actions,
      action ≠ .system (.pool .drain) ∧ action ≠ .system (.pool .stop)) :
    Runs.Throughout (step options settings adapter) (WithinBudget options) (init options)
      actions :=
  -- The bound is read off the account in every state of the run.
  (roomy_throughout options settings adapter actions undrained).mono
    fun _ ⟨accounted, roomy⟩ => accounted.withinBudget bounded roomy

/-- A client is closed for another key before the client of that key is constructed. -/
theorem withinBudget_throughout_evicting :
    let actions : List (AdapterAction Nat) :=
      [.system (.pool (.acquire 7)), .system (.pool (.obtain 0)), .system (.create 0),
        .constructed 0 .made, .opened 0 true, .system (.record 0), .system (.settle 0),
        .system (.pool (.deliver 0)), .system (.pool (.releaseHandle 0)),
        .system (.pool (.acquire 8)), .system (.pool (.obtain 1)), .system (.create 1),
        .constructed 1 .made]
    (Runs.run (step { max := 1 } {} .createPrismaPool) (init { max := 1 }) actions).map
        AdaptedPool.unclosed = some [1] ∧
      Runs.Throughout (step { max := 1 } {} .createPrismaPool) (WithinBudget { max := 1 })
        (init { max := 1 }) actions := by
  -- The run never drains, so that the theorem applies to it.
  intro actions
  exact ⟨by decide, withinBudget_throughout _ (by decide) _ _ _ (by simp [actions])⟩

/-! ### One client for each key -/

/-- No key has two clients that are not closed. -/
def OnePerKey (s : AdaptedPool κ) : Prop :=
  ∀ client ∈ s.unclosed, ∀ other ∈ s.unclosed, s.clients[client]? = s.clients[other]? →
    client = other

/-- A client that is not closed is awaited by a pending exec, or it is in stock. -/
theorem Accounted.unclosed_cases (accounted : Accounted adapter s)
    (inside : client ∈ s.unclosed) :
    ∃ (c : Nat) (call : FactoryCall ClientId) (exec : Exec κ ClientId),
      s.system.pool.factoryCalls[c]? = some call ∧
        s.system.pool.execs[call.exec]? = some exec ∧ s.clients[client]? = some exec.key ∧
          (s.makings[c]?).bind Making.client = some client ∧
            (exec.outcome = .pending ∨ ∃ (e : Nat) (entry : Entry κ ClientId),
              s.system.pool.heap[e]? = some entry ∧ entry.resource = client ∧
                entry.key = exec.key ∧ entry.disposing = false) := by
  obtain ⟨constructed, unclosed⟩ := List.mem_filter.mp inside
  rw [decide_eq_true_eq] at unclosed
  -- The call of the factory that constructed the client is that of an exec of its key.
  obtain ⟨making, known, own⟩ :=
    List.mem_filterMap.mp (accounted.constructed.mem_iff.mpr constructed)
  obtain ⟨c, read⟩ := List.mem_iff_getElem?.mp known
  obtain ⟨key, keyed, owner⟩ := accounted.keyed c making client read own
  obtain ⟨call, exec, called, found, rfl⟩ := State.callKey_eq_some.mp owner
  refine ⟨c, call, exec, called, found, keyed, by rw [read, Option.bind_some, own], ?_⟩
  have linked := accounted.sourced.equipped.linked
  obtain ⟨run, present, follows⟩ := linked.followed c call called
  rcases linked.yielded _ run exec present found with outstanding | settled
  · exact .inl outstanding
  have outcome := congrArg (fun outcomes => outcomes[c]?) accounted.follows
  simp only [List.getElem?_map, called, read, Option.map_some, Option.some.injEq] at outcome
  cases stage : run.stage with
  | refused => simp [stage, ExecStage.Follows] at follows
  | awaiting awaited =>
    obtain ⟨-, exec', found', outstanding⟩ := linked.awaited _ run _ present stage
    cases found.symm.trans found'
    exact .inl outstanding
  | recorded answer =>
    rw [stage] at follows settled
    have landed : making.outcome = .ofAnswer answer := outcome.symm.trans follows
    cases answer with
    | none =>
      -- A client whose making failed was closed.
      have abandoned : making.abandoned = some client := by
        cases making <;> simp_all [Making.outcome, Making.client, Making.abandoned,
          Outcome.ofAnswer]
      exact absurd (accounted.closed.mem_iff.mpr (List.mem_append_left _
        (List.mem_filterMap.mpr ⟨making, known, abandoned⟩))) unclosed
    | some resource =>
      obtain rfl : resource = client := by
        cases making <;> simp_all [Making.outcome, Making.client, Outcome.ofAnswer]
      have handed : (resource, exec.key) ∈ handedOver s.system.pool.execs :=
        List.mem_filterMap.mpr ⟨exec, List.mem_of_getElem? found, by rw [settled]; rfl⟩
      -- What was handed over was disposed of, and closed, or is in stock.
      rcases List.mem_append.mp (accounted.sourced.ledger.placed.mem_iff.mpr handed) with
        disposed | stocked
      · exact absurd (accounted.closed.mem_iff.mpr (List.mem_append_right _
          (List.mem_map_of_mem disposed))) unclosed
      · obtain ⟨entry, present, same⟩ := List.mem_map.mp stocked
        obtain ⟨present, fresh⟩ := List.mem_filter.mp present
        obtain ⟨e, there⟩ := List.mem_iff_getElem?.mp present
        obtain ⟨own, key⟩ := Prod.mk.inj same
        exact .inr ⟨e, entry, there, own, key, by simpa using fresh⟩

/-- A pool that was never drained has one client at most for a key that is not closed. -/
theorem Accounted.onePerKey (accounted : Accounted adapter s)
    (roomy : s.system.pool.Roomy options) : OnePerKey s := by
  have core := roomy.core
  have linked := accounted.sourced.equipped.linked
  -- While an exec is pending its key has no live entry.
  have apart {x : ExecId} {exec : Exec κ ClientId} {e : EntryId} {entry : Entry κ ClientId}
      (found : s.system.pool.execs[x]? = some exec) (pending : exec.outcome = .pending)
      (there : s.system.pool.heap[e]? = some entry) (fresh : entry.disposing = false)
      (same : entry.key = exec.key) : False := by
    obtain ⟨acquire, called, key, phase⟩ := core.execs.awaited x exec found pending
    obtain ⟨absent, -⟩ := core.fits called phase
    have live := State.live_of_undrained core.store roomy.undrained roomy.accurate there fresh
    rw [same, ← key, absent] at live
    cases live
  intro client inside other inside' same
  obtain ⟨c, call, exec, called, found, keyed, making, standing⟩ := accounted.unclosed_cases inside
  obtain ⟨c', call', exec', called', found', keyed', making', standing'⟩ :=
    accounted.unclosed_cases inside'
  rw [keyed, keyed', Option.some.injEq] at same
  rcases standing with pending | ⟨e, entry, there, rfl, key, fresh⟩ <;>
    rcases standing' with pending' | ⟨e', entry', there', rfl, key', fresh'⟩
  · -- Two pending execs of the key are one, which has one call of the factory.
    have one := State.pending_apart core found found' pending pending' same
    obtain rfl := linked.apart called called' one
    exact Option.some.inj (making.symm.trans making')
  · exact (apart found pending there' fresh' (key'.trans same.symm)).elim
  · exact (apart found' pending' there fresh (key.trans same)).elim
  · -- Two live entries of the key are one.
    have live := State.live_of_undrained core.store roomy.undrained roomy.accurate there fresh
    have live' := State.live_of_undrained core.store roomy.undrained roomy.accurate there' fresh'
    rw [key, same, ← key', live', Option.some.injEq] at live
    subst live
    cases there.symm.trans there'
    rfl

/-- Throughout every run without drains no key has two clients that are not closed. -/
theorem onePerKey_throughout (options : PoolOptions) (settings : InMemoryCircuitBreakerOptions)
    (adapter : Adapter) (actions : List (AdapterAction κ))
    (undrained : ∀ action ∈ actions,
      action ≠ .system (.pool .drain) ∧ action ≠ .system (.pool .stop)) :
    Runs.Throughout (step options settings adapter) OnePerKey (init options) actions :=
  -- The clients of a key are read off the account in every state of the run.
  (roomy_throughout options settings adapter actions undrained).mono
    fun _ ⟨accounted, roomy⟩ => accounted.onePerKey roomy

/-- A client that fails validation is closed before another one is constructed for its key. -/
theorem onePerKey_throughout_refuted :
    let options : PoolOptions := { max := 1, validate := true }
    let actions : List (AdapterAction Nat) :=
      [.system (.pool (.acquire 7)), .system (.pool (.obtain 0)), .system (.create 0),
        .constructed 0 .made, .system (.record 0), .system (.settle 0),
        .system (.pool (.deliver 0)), .system (.pool (.releaseHandle 0)),
        .system (.pool (.acquire 7)), .system (.pool (.obtain 1)),
        .system (.pool (.validated 1 (some false))), .system (.pool (.disposeSettled 0)),
        .system (.pool (.discarded 1)), .system (.create 1), .constructed 1 .made]
    (Runs.run (step options {} .createKnexPool) (init options) actions).map
        (fun s => (s.clients, s.unclosed)) = some ([7, 7], [1]) ∧
      Runs.Throughout (step options {} .createKnexPool) OnePerKey (init options) actions := by
  -- The run never drains, so that the theorem applies to it.
  intro options actions
  exact ⟨by decide, onePerKey_throughout _ _ _ _ (by simp [actions])⟩

end AdaptedPool

end RefPool
