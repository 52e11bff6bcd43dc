import RefPool.Proofs.Clients
import RefPool.Proofs.Shutdown

/-! An adapter's pool that is closed once and for all closes every client that was constructed. -/

namespace RefPool

/-- Whether a step opens or closes a pool. -/
def Action.switches {κ τ : Type} : Action κ τ → Bool
  | .drain | .stop | .start => true
  | _ => false

/-- Neither the breakers of a pool nor its factory open or close it. -/
theorem Action.own_of_switches {κ τ : Type} {action : Action κ τ}
    (switches : action.switches = true) :
    action.ofBreaker = false ∧ (ProtectedAction.pool action).ofFactory = false := by
  -- Each of the actions that do is neither a breaker's nor a factory's.
  cases action <;> first | exact ⟨rfl, rfl⟩ | cases switches

namespace State

variable {κ τ : Type} [DecidableEq κ] {options : PoolOptions}

/-- A pool that was closed once and for all, and whose handles are released, has disposed of all. -/
theorem undisposedResources_of_closed (before after : List (Action κ τ)) {closing : Action κ τ}
    {called last : State κ τ} (undrained : ∀ action ∈ before, action ≠ .drain ∧ action ≠ .stop)
    (draining : closing = .drain ∨ closing = .stop) (unopened : Action.start ∉ after)
    (ran : Runs.run (step options) (init options) before = some called)
    (waited : Runs.run (step options) called (closing :: after) = some last)
    (released : ∀ handle ∈ last.handles, handle.released = true) :
    undisposedResources last.heap = [] := by
  obtain ⟨shut, stepped, rest⟩ := Runs.run_cons_eq_some.mp waited
  have core := core_run ran
  -- The drain finds every entry where it belongs, and leaves nothing live that nobody holds.
  have bound := (exact_of_undrained undrained ran).bound
  obtain ⟨⟨leaving, unarmed⟩, closed⟩ : (shut.toStore.Leaving ∧ shut.sweepTimer = false) ∧
      shut.closed = true := by
    rcases draining with rfl | rfl
    · cases stepped
      exact ⟨leaving_drain core.store bound, (staysClosed_drain core.store).2⟩
    · cases stepped
      exact ⟨leaving_drain (s := called.setClosed.stopTimers) core.store bound,
        (staysClosed_drain (s := called.setClosed.stopTimers) core.store).2⟩
  have final := leaving_run (core_step core stepped) closed unarmed leaving unopened rest
  -- Whatever is still bound is condemned, so that somebody would have to hold it.
  obtain ⟨core', counted⟩ := Runs.run_invariant
    (fun s : State κ τ => Core s ∧ Counted (· ≤ ·) s.heap s.handles)
    (fun s action next ⟨core, counted⟩ stepped => ⟨core_step core stepped,
      (step_effect stepped).counted comparison_le core (.inr (by omega)) counted⟩)
    ⟨core_init options, counted_init options⟩ (Runs.run_append_eq_some.mpr ⟨called, ran, waited⟩)
  exact undisposedResources_of_unbound final.bound
    (unbound_of_released core'.store final counted released)

end State

namespace AdaptedPool

variable {κ : Type} [DecidableEq κ] {options : PoolOptions}
  {settings : InMemoryCircuitBreakerOptions} {adapter : Adapter} {s next : AdaptedPool κ}
  {action : AdapterAction κ}

/-- A step is a run of the pool, which is opened or closed only as it is asked to be. -/
theorem Effect.pool_moves (effect : Effect options settings adapter s action next) :
    ∃ actions, Runs.run (State.step options) s.system.pool actions = some next.system.pool ∧
      ∀ other ∈ actions, other.switches = true → action = .system (.pool other) := by
  rcases effect.system_moves with same | ⟨inner, moved, asked⟩
  · exact ⟨[], by rw [same, Runs.run_nil], by simp⟩
  · obtain ⟨actions, ran, among⟩ := (ProtectedPool.effect_of_step moved).moves_among
    refine ⟨actions, ran, fun other inside switches => ?_⟩
    obtain ⟨foreign, alien⟩ := Action.own_of_switches switches
    -- The step of the pool is neither that of a breaker nor a settlement of the factory.
    rcases among other inside with breaker | rfl
    · rw [foreign] at breaker
      cases breaker
    · rcases asked with factory | asked
      · rw [alien] at factory
        cases factory
      · exact asked

/-- A run is a run of the pool, which is opened or closed only as it is asked to be. -/
theorem pool_run {actions : List (AdapterAction κ)} {last : AdaptedPool κ}
    (ran : Runs.run (step options settings adapter) s actions = some last) :
    ∃ moves, Runs.run (State.step options) s.system.pool moves = some last.system.pool ∧
      ∀ other ∈ moves, other.switches = true → .system (.pool other) ∈ actions := by
  -- The runs that the steps are made of are put one behind the other.
  induction actions generalizing s with
  | nil =>
    rw [Runs.run_nil, Option.some.injEq] at ran
    exact ⟨[], by rw [ran, Runs.run_nil], by simp⟩
  | cons action rest ih =>
    obtain ⟨next, stepped, ran⟩ := Runs.run_cons_eq_some.mp ran
    obtain ⟨first, moved, asked⟩ := (effect_of_step stepped).pool_moves
    obtain ⟨others, ran, later⟩ := ih ran
    refine ⟨first ++ others, Runs.run_append_eq_some.mpr ⟨_, moved, ran⟩,
      fun other inside switches => ?_⟩
    rcases List.mem_append.mp inside with here | there
    · rw [asked other here switches]
      exact List.mem_cons_self
    · exact List.mem_cons_of_mem _ (later other there switches)

/-- A step of the pool that is no one else's is made as it is asked for. -/
theorem pool_step {action : Action κ ClientId}
    (stepped : s.step options settings adapter (.system (.pool action)) = some next) :
    s.system.pool.step options action = some next.system.pool := by
  -- The adapter closes clients afterwards, which the pool does not see.
  cases effect_of_step stepped with
  | system _ system alien moved =>
    rw [follow, system_foldl_dispose]
    cases ProtectedPool.effect_of_step moved with
    | passed _ pool foreign led => exact led

/--
An adapter's pool that was closed once and for all has closed every client exactly once.

That is so as soon as all handles are released, and no exec and no factory call is outstanding.
-/
theorem closesAll_of_closed (options : PoolOptions) (settings : InMemoryCircuitBreakerOptions)
    (adapter : Adapter) (before after : List (AdapterAction κ)) (closing : Action κ ClientId)
    {called last : AdaptedPool κ}
    (undrained : ∀ action ∈ before,
      action ≠ .system (.pool .drain) ∧ action ≠ .system (.pool .stop))
    (draining : closing = .drain ∨ closing = .stop)
    (unopened : AdapterAction.system (.pool .start) ∉ after)
    (ran : Runs.run (step options settings adapter) (init options) before = some called)
    (waited : Runs.run (step options settings adapter) called
      (.system (.pool closing) :: after) = some last)
    (released : ∀ handle ∈ last.system.pool.handles, handle.released = true)
    (settled : last.system.pool.Settled) :
    last.closes.Perm (List.range last.clients.length) := by
  obtain ⟨shut, stepped, rest⟩ := Runs.run_cons_eq_some.mp waited
  obtain ⟨first, led, asked⟩ := pool_run ran
  obtain ⟨second, followed, asked'⟩ := pool_run rest
  -- The pool itself was closed once and for all.
  have disposed := State.undisposedResources_of_closed first second
    (fun action inside => ⟨fun same => (undrained _ (asked action inside (by rw [same]; rfl))).1
        (by rw [same]),
      fun same => (undrained _ (asked action inside (by rw [same]; rfl))).2 (by rw [same])⟩)
    draining (fun inside => unopened (asked' _ inside rfl)) led
    (Runs.run_cons_eq_some.mpr ⟨_, pool_step stepped, followed⟩) released
  have accounted := (accounted_throughout options settings adapter
    (before ++ .system (.pool closing) :: after)).of_run
      (Runs.run_append_eq_some.mpr ⟨called, ran, waited⟩)
  -- So nothing is in stock, and all clients were closed.
  have all := accounted.closes_perm_range settled
  rwa [inStock, disposed, List.map_nil, List.append_nil] at all

/-- A drain finds a client in use, one that cannot be opened, and one that opens too late. -/
theorem closesAll_of_closed_late :
    let before : List (AdapterAction Nat) :=
      [.system (.pool (.acquire 7)), .system (.pool (.obtain 0)), .system (.create 0),
        .constructed 0 .made, .opened 0 true, .system (.record 0), .system (.settle 0),
        .system (.pool (.deliver 0)), .system (.pool (.acquire 8)), .system (.pool (.obtain 1)),
        .system (.create 1), .constructed 1 .made, .system (.pool (.acquire 9)),
        .system (.pool (.obtain 2)), .system (.create 2), .constructed 2 .made]
    let after : List (AdapterAction Nat) :=
      [.opened 1 false, .opened 2 true, .system (.record 2), .system (.settle 2), .closed 1,
        .system (.record 1), .system (.settle 1), .system (.pool (.releaseHandle 0))]
    ∃ last, Runs.run (step { max := 3 } {} .createPrismaPool) (init { max := 3 })
        (before ++ .system (.pool .drain) :: after) = some last ∧
      last.closes = [1, 2, 0] ∧ last.closes.Perm (List.range last.clients.length) := by
  intro before after
  -- The run is possible, and where it ends nothing is outstanding.
  obtain ⟨last, ran⟩ := Option.isSome_iff_exists.mp (show (Runs.run
    (step { max := 3 } {} .createPrismaPool) (init { max := 3 })
    (before ++ .system (.pool .drain) :: after)).isSome = true by decide)
  obtain ⟨called, led, waited⟩ := Runs.run_append_eq_some.mp ran
  have ended : ∀ last ∈ Runs.run (step { max := 3 } {} .createPrismaPool) (init { max := 3 })
      (before ++ .system (.pool .drain) :: after), last.closes = [1, 2, 0] ∧
        (∀ handle ∈ last.system.pool.handles, handle.released = true) ∧
          (∀ exec ∈ last.system.pool.execs, exec.outcome.isPending = false) ∧
            ∀ call ∈ last.system.pool.factoryCalls, call.outcome.isPending = false := by decide
  obtain ⟨closes, released, settled⟩ := ended last ran
  exact ⟨last, ran, closes, closesAll_of_closed _ _ _ before after .drain (by simp [before])
    (.inl rfl) (by simp [after]) led waited released settled⟩

end AdaptedPool

end RefPool
