import RefPool.Proofs.Clients

/-! A client stays open as long as a handle on it is out. -/

namespace RefPool

/-- Neither a breaker nor the factory disturbs an entry on its way to a caller. -/
theorem State.undisturbed_of_other {κ τ : Type} [DecidableEq κ] {action : Action κ τ}
    (other : (action.ofBreaker || (ProtectedAction.pool action).ofFactory) = true)
    (s : State κ τ) : s.HandlesOnly action ∧ s.Undisturbed action := by
  -- None of their steps is a release, a drain or a validation.
  cases action <;> first | exact ⟨trivial, trivial⟩ | cases other

namespace AdaptedPool

variable {κ : Type} [DecidableEq κ] {options : PoolOptions}
  {settings : InMemoryCircuitBreakerOptions} {adapter : Adapter} {s next : AdaptedPool κ}
  {action : AdapterAction κ}

/-- Nobody releases by key, and an entry on its way to a caller is left alone. -/
def Undisturbed (s : AdaptedPool κ) : AdapterAction κ → Prop
  | .system (.pool own) => s.system.pool.HandlesOnly own ∧ s.system.pool.Undisturbed own
  | _ => True

/-- Whether a step leaves entries on their way to callers alone can be checked. -/
instance (s : AdaptedPool κ) (action : AdapterAction κ) : Decidable (s.Undisturbed action) := by
  match action with
  | .system (.pool _) => unfold Undisturbed; infer_instance
  | .system (.create _) | .system (.record _) | .system (.settle _) | .constructed _ _
  | .opened _ _ | .closed _ => unfold Undisturbed; infer_instance

/-- The client of every handle that is out was constructed, and has not been closed. -/
def Connected (s : AdaptedPool κ) : Prop :=
  ∀ handle ∈ s.system.pool.handles, handle.released = false →
    ∃ entry, s.system.pool.heap[handle.entry]? = some entry ∧
      entry.resource < s.clients.length ∧ entry.resource ∉ s.closes

/-- An undisturbed step of an adapter keeps the handles on entries that are not disposed of. -/
theorem holding_step (holding : s.system.pool.Holding) (undisturbed : s.Undisturbed action)
    (stepped : s.step options settings adapter action = some next) :
    next.system.pool.Holding := by
  refine kept_of_pool State.Holding (fun pool own => pool.HandlesOnly own ∧ pool.Undisturbed own)
    (fun _ _ _ holding alone led => holding.step alone led)
    (fun pool own other => State.undisturbed_of_other other pool) (fun own same => ?_)
    holding stepped
  -- What the pool itself is asked for leaves such entries alone by assumption.
  subst same
  exact undisturbed

/-- The client of an undisposed entry has not been closed. -/
theorem Accounted.connected (accounted : Accounted adapter s)
    (holding : s.system.pool.Holding) : Connected s := by
  intro handle inside out
  obtain ⟨entry, found⟩ : ∃ entry, s.system.pool.heap[handle.entry]? = some entry :=
    ⟨_, List.getElem?_eq_getElem (holding.counted.issued handle inside)⟩
  have fresh := holding.safe handle inside out entry found
  have closes := accounted.closesOnce
  -- The client is in stock, and no client is both in stock and closed.
  have stocked : entry.resource ∈ s.inStock :=
    List.mem_map.mpr ⟨_, List.mem_map_of_mem (List.mem_filter.mpr
      ⟨List.mem_of_getElem? found, by simp [fresh]⟩), rfl⟩
  refine ⟨entry, found, closes.constructed _ (List.mem_append_right _ stocked), fun closed => ?_⟩
  exact (List.nodup_append.mp closes.once).2.2 _ closed _ stocked rfl

/-- Throughout every undisturbed run of an adapter a client that is held is not closed. -/
theorem connected_throughout (options : PoolOptions) (settings : InMemoryCircuitBreakerOptions)
    (adapter : Adapter) (actions : List (AdapterAction κ))
    (undisturbed : Runs.Guarded (step options settings adapter) Undisturbed (init options)
      actions) :
    Runs.Throughout (step options settings adapter) Connected (init options) actions := by
  -- The handles are safe by the guard, and the clients are accounted for anyway.
  have holding := undisturbed.throughout
    (fun s : AdaptedPool κ => s.system.pool.Holding)
    (fun _ _ _ holding undisturbed stepped => holding_step holding undisturbed stepped)
    (State.holding_init options)
  exact ((accounted_throughout options settings adapter actions).both holding).mono
    fun _ ⟨accounted, holding⟩ => accounted.connected holding

/-- A drain finds a database in use, which ends it only when it is released. -/
theorem connected_throughout_drained :
    let actions : List (AdapterAction Nat) :=
      [.system (.pool (.acquire 7)), .system (.pool (.obtain 0)), .system (.create 0),
        .constructed 0 .made, .system (.record 0), .system (.settle 0),
        .system (.pool (.deliver 0)), .system (.pool .drain), .system (.pool (.releaseHandle 0)),
        .system (.pool (.disposeSettled 0)), .system (.pool (.drained 0))]
    (Runs.run (step { max := 1 } {} .createDrizzlePool) (init { max := 1 }) actions).map
        AdaptedPool.closes = some [0] ∧
      Runs.Throughout (step { max := 1 } {} .createDrizzlePool) Connected (init { max := 1 })
        actions := by
  -- The handle is out while the pool drains, and the guard holds along the run.
  intro actions
  exact ⟨by decide, connected_throughout _ _ _ actions (by decide)⟩

end AdaptedPool

end RefPool
