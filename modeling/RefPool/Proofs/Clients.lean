import RefPool.Model.Adapter
import RefPool.Proofs.Lending
import RefPool.Proofs.Sourced

/-! Every client that an adapter constructs is closed once, and is lent for its own key alone. -/

namespace RefPool

namespace Making

/-- The client that a call of the factory has constructed. -/
def client : Making → Option ClientId
  | .configuring => none
  | .opening client | .closing client | .resolved client => some client
  | .rejected client => client

/-- The client that a call of the factory has constructed and closed again. -/
def abandoned : Making → Option ClientId
  | .configuring | .opening _ | .resolved _ => none
  | .closing client => some client
  | .rejected client => client

/-- The client that a call of the factory is opening. -/
def unopened : Making → Option ClientId
  | .opening client => some client
  | .configuring | .closing _ | .resolved _ | .rejected _ => none

/-- How far the promise of a call of the factory has come. -/
def outcome : Making → Outcome ClientId
  | .configuring | .opening _ | .closing _ => .pending
  | .resolved client => .fulfilled client
  | .rejected _ => .rejected

/-- A constructed client was closed again, or became a resource, or is about to be opened. -/
theorem clients_perm (makings : List Making) :
    (makings.filterMap client).Perm (makings.filterMap abandoned ++
      (makings.filterMap (fun making => making.outcome.value?) ++
        makings.filterMap unopened)) := by
  -- Each call of the factory is in one of these places with its client.
  have parts : makings.filterMap client = makings.flatMap fun making =>
      making.abandoned.toList ++ (making.outcome.value?.toList ++ making.unopened.toList) := by
    rw [List.filterMap_eq_flatMap_toList]
    refine List.flatMap_congr fun making _ => ?_
    cases making with
    | rejected other => simp [client, abandoned, outcome, unopened, Outcome.value?]
    | _ => rfl
  rw [parts]
  refine (List.flatMap_append_perm makings _ _).symm.trans ?_
  simp only [List.filterMap_eq_flatMap_toList]
  exact (List.flatMap_append_perm makings _ _).symm.append_left _

end Making

namespace State

variable {κ τ : Type} [DecidableEq κ] {options : PoolOptions} {s next : State κ τ}
  {action : Action κ τ} {c : FactoryId} {key : κ}

omit [DecidableEq κ] in
/-- The key of a factory call is the key of its exec. -/
theorem callKey_eq_some : s.callKey c = some key ↔
    ∃ call exec, s.factoryCalls[c]? = some call ∧ s.execs[call.exec]? = some exec ∧
      exec.key = key := by
  -- The key is read through the call and its exec.
  simp only [callKey, Option.bind_eq_some_iff, Option.map_eq_some_iff]
  tauto

omit [DecidableEq κ] in
/-- A factory call keeps its key. -/
theorem Flow.callKey (flow : Flow s next action) (owner : s.callKey c = some key) :
    next.callKey c = some key := by
  rw [callKey_eq_some] at owner ⊢
  obtain ⟨call, exec, made, found, rfl⟩ := owner
  -- Execs and calls are added and settled, but not given other keys.
  cases flow with
  | still _ execs calls => exact ⟨call, exec, calls ▸ made, execs ▸ found, rfl⟩
  | started a answer key execs calls =>
    exact ⟨call, exec, calls ▸ made, execs ▸ Arena.getElem?_push_of_some _ found, rfl⟩
  | called x _ _ execs calls =>
    exact ⟨call, exec, calls ▸ Arena.getElem?_push_of_some _ made, execs ▸ found, rfl⟩
  | landed i answer _ _ _ execs calls =>
    by_cases same : i = c
    · subst same
      exact ⟨_, exec, calls ▸ Arena.getElem?_modify_self _ made, execs ▸ found, rfl⟩
    · exact ⟨call, exec, by rw [calls, Arena.getElem?_modify_other _ _ same, made],
        execs ▸ found, rfl⟩
  | finished x answer _ _ _ execs calls =>
    by_cases same : x = call.exec
    · subst same
      exact ⟨call, { exec with outcome := .ofAnswer answer }, calls ▸ made,
        execs ▸ Arena.getElem?_modify_self _ found, rfl⟩
    · exact ⟨call, exec, calls ▸ made, by rw [execs, Arena.getElem?_modify_other _ _ same, found],
        rfl⟩

end State

namespace ProtectedPool

variable {κ τ : Type} [DecidableEq κ] {options : PoolOptions}
  {settings : InMemoryCircuitBreakerOptions} {s next : ProtectedPool κ τ}
  {action : ProtectedAction κ τ} {c : FactoryId} {key : κ} {answer : Option τ}

/-- A factory call keeps its key. -/
theorem Effect.callKey (effect : Effect options settings s action next) (sourced : Sourced s)
    (owner : s.pool.callKey c = some key) : next.pool.callKey c = some key := by
  -- The step is a run of the pool, whose steps each keep the key.
  obtain ⟨moves, ran⟩ := effect.moves
  exact (Runs.run_invariant (fun pool : State κ τ => Core pool ∧ pool.callKey c = some key)
    (fun pool action next ⟨core, owner⟩ stepped => ⟨State.core_step core stepped,
      ((State.step_effect stepped).flow core.store).callKey owner⟩)
    ⟨sourced.equipped.core, owner⟩ ran).2

/-- Only the factory settles its calls, and whatever else happens adds calls at most. -/
theorem Effect.outcomes (effect : Effect options settings s action next) (sourced : Sourced s)
    (alien : action.ofFactory = false) :
    ∃ more, next.pool.factoryCalls.map FactoryCall.outcome =
      s.pool.factoryCalls.map FactoryCall.outcome ++ List.replicate more .pending := by
  have same {calls : List (FactoryCall τ)} (calls_eq : calls = s.pool.factoryCalls) :
      ∃ more, calls.map FactoryCall.outcome =
        s.pool.factoryCalls.map FactoryCall.outcome ++ List.replicate more .pending :=
    ⟨0, by simp [calls_eq]⟩
  -- Only a creation that a breaker admits calls the factory.
  cases effect with
  | passed action pool foreign stepped =>
    cases (State.step_effect stepped).flow sourced.equipped.core.store with
    | still _ execs calls => exact same calls
    | landed => cases alien
    | started | called | finished => cases foreign
  | called a acquire bank b breaker after heard creation stepped =>
    obtain ⟨objects, counts, events, rfl, -⟩ := heard_eq creation.told
    exact ⟨1, List.map_append⟩
  | refused a acquire bank b breaker after admission heard creation =>
    obtain ⟨objects, counts, events, rfl, -⟩ := heard_eq creation.told
    exact same rfl
  | recorded x run c call outcome breaker heard found stage made landed known told =>
    obtain ⟨objects, counts, events, rfl, -⟩ := heard_eq told
    exact same rfl
  | settled x run outcome pool found stage stepped =>
    cases (State.step_effect stepped).flow sourced.equipped.core.store with
    | still _ execs calls | finished _ _ _ _ _ _ calls => exact same calls

/-- A factory call that settles was pending, and nothing else changes. -/
theorem factorySettled_eq
    (stepped : s.step options settings (.pool (.factorySettled c answer)) = some next) :
    ∃ call, s.pool.factoryCalls[c]? = some call ∧ call.outcome = .pending ∧
      next = { s with
        pool := { s.pool with
          factoryCalls := s.pool.factoryCalls.modify c fun call =>
            { call with outcome := .ofAnswer answer } } } := by
  -- The pool makes this step by itself, and it is the settlement of a pending call.
  cases effect_of_step stepped with
  | passed _ pool foreign moved =>
    cases State.step_effect moved with
    | factorySettled _ _ call found outstanding => exact ⟨call, found, outstanding, rfl⟩

end ProtectedPool

namespace AdaptedPool

variable {κ : Type} [DecidableEq κ] {options : PoolOptions}
  {settings : InMemoryCircuitBreakerOptions} {adapter : Adapter} {s next : AdaptedPool κ}
  {action : AdapterAction κ} {c : FactoryId} {key : κ} {client : ClientId}

/-- A call of the factory has constructed a client, and will open it if the adapter does so. -/
def constructing (s : AdaptedPool κ) (c : FactoryId) (key : κ) : AdaptedPool κ :=
  { s with clients := s.clients ++ [key] }.setMaking c (.opening s.clients.length)

/-- The outcomes of a step, one constructor for each way it can go. -/
inductive Effect (options : PoolOptions) (settings : InMemoryCircuitBreakerOptions)
    (adapter : Adapter) (s : AdaptedPool κ) : AdapterAction κ → AdaptedPool κ → Prop
  /-- The pool moves on, and calls the factory and `dispose` while it does. -/
  | system (action : ProtectedAction κ ClientId) (system : ProtectedPool κ ClientId)
      (alien : action.ofFactory = false)
      (stepped : s.system.step options settings action = some system) :
      Effect options settings adapter s (.system action) (s.follow adapter system)
  /-- No client could be constructed. -/
  | failed (c : FactoryId) (system : ProtectedPool κ ClientId)
      (found : s.makings[c]? = some .configuring)
      (stepped : s.system.step options settings (.pool (.factorySettled c none)) = some system) :
      Effect options settings adapter s (.constructed c .failed)
        { s.setMaking c (.rejected none) with system }
  /-- A client was constructed that has to be opened. -/
  | constructed (c : FactoryId) (key : κ) (found : s.makings[c]? = some .configuring)
      (owner : s.system.pool.callKey c = some key) :
      Effect options settings adapter s (.constructed c .made) (s.constructing c key)
  /-- A client was constructed that is ready for use. -/
  | made (c : FactoryId) (key : κ) (next : AdaptedPool κ)
      (found : s.makings[c]? = some .configuring)
      (owner : s.system.pool.callKey c = some key)
      (resolved : (s.constructing c key).resolve options settings adapter c s.clients.length =
        some next) : Effect options settings adapter s (.constructed c .made) next
  /-- A client was constructed that could not be wrapped. -/
  | unwrapped (c : FactoryId) (key : κ) (found : s.makings[c]? = some .configuring)
      (owner : s.system.pool.callKey c = some key) :
      Effect options settings adapter s (.constructed c .unwrapped)
        ((s.constructing c key).giveUp c s.clients.length)
  /-- A client is open. -/
  | opened (c : FactoryId) (client : ClientId) (next : AdaptedPool κ)
      (found : s.makings[c]? = some (.opening client))
      (resolved : s.resolve options settings adapter c client = some next) :
      Effect options settings adapter s (.opened c true) next
  /-- A client could not be opened. -/
  | unopened (c : FactoryId) (client : ClientId)
      (found : s.makings[c]? = some (.opening client)) :
      Effect options settings adapter s (.opened c false) (s.giveUp c client)
  /-- A client that could not be opened or wrapped is closed again. -/
  | closed (c : FactoryId) (client : ClientId) (system : ProtectedPool κ ClientId)
      (found : s.makings[c]? = some (.closing client))
      (stepped : s.system.step options settings (.pool (.factorySettled c none)) = some system) :
      Effect options settings adapter s (.closed c)
        { s.setMaking c (.rejected (some client)) with system }

omit [DecidableEq κ] in
/-- Where a call has come is not seen any more once it has come further. -/
theorem setMaking_setMaking (s : AdaptedPool κ) (c : FactoryId) (first second : Making) :
    (s.setMaking c first).setMaking c second = s.setMaking c second := by
  -- The second assignment overwrites the first.
  simp [setMaking, List.modify_modify_eq, Function.comp_def]

/-- Every step has one of the outcomes. -/
theorem effect_of_step (stepped : s.step options settings adapter action = some next) :
    Effect options settings adapter s action next := by
  cases action with
  | system action =>
    obtain ⟨alien, due⟩ := Option.ite_none_left_eq_some.mp stepped
    obtain ⟨system, moved, rfl⟩ := Option.map_eq_some_iff.mp due
    exact .system action system (by simpa using alien) moved
  | constructed c construction =>
    obtain ⟨making, found, due⟩ := Option.bind_eq_some_iff.mp stepped
    cases making with
    | opening | closing | resolved | rejected => cases due
    | configuring =>
      obtain ⟨key, owner, due⟩ := Option.bind_eq_some_iff.mp due
      cases construction with
      | failed =>
        obtain ⟨system, moved, rfl⟩ := Option.map_eq_some_iff.mp due
        exact .failed c system found moved
      | made =>
        simp only [construct] at due
        split at due
        · cases due
          exact .constructed c key found owner
        · refine .made c key next found owner ?_
          rw [← due]
          -- That the client was about to be opened is forgotten when it resolves.
          simp only [resolve, constructing]
          split <;> simp [setMaking, List.modify_modify_eq, Function.comp_def]
      | unwrapped =>
        simp only [construct] at due
        split at due
        · cases due
          have same : Effect options settings adapter s (.constructed c .unwrapped)
              ((s.constructing c key).giveUp c s.clients.length) := .unwrapped c key found owner
          rwa [giveUp, constructing, setMaking_setMaking] at same
        · cases due
  -- Only a client that is being opened can be open, or fail to open.
  | opened c succeeded =>
    obtain ⟨making, found, due⟩ := Option.bind_eq_some_iff.mp stepped
    cases making with
    | configuring | closing | resolved | rejected => cases due
    | opening client =>
      cases succeeded with
      | true => exact .opened c client next found due
      | false =>
        cases due
        exact .unopened c client found
  -- Only a client that is being closed is closed.
  | closed c =>
    obtain ⟨making, found, due⟩ := Option.bind_eq_some_iff.mp stepped
    cases making with
    | configuring | opening | resolved | rejected => cases due
    | closing client =>
      obtain ⟨system, moved, rfl⟩ := Option.map_eq_some_iff.mp due
      exact .closed c client system found moved

/-- The pool is told of a call of the factory that resolves. -/
theorem step_of_resolve (resolved : s.resolve options settings adapter c client = some next) :
    s.system.step options settings (.pool (.factorySettled c (some client))) =
      some next.system := by
  obtain ⟨system, stepped, rfl⟩ := Option.map_eq_some_iff.mp resolved
  -- Whether the map comes to know the wrapper does not matter to the pool.
  cases wraps : adapter.wraps <;> simpa [wraps, setMaking] using stepped

/-! ### The calls of `dispose` -/

omit [DecidableEq κ] in
/-- `dispose` closes each client that it is called for, as long as the map knows their wrappers. -/
theorem foldl_dispose (disposed : List ClientId) (s : AdaptedPool κ)
    (known : adapter.wraps = true → disposed.Subperm s.wrapped) :
    ∃ wrapped, disposed.foldl (dispose adapter) s =
        { s with wrapped, closes := s.closes ++ disposed } ∧
      (adapter.wraps = true → (wrapped ++ disposed).Perm s.wrapped) := by
  -- The map forgets one wrapper after the other.
  induction disposed generalizing s with
  | nil => exact ⟨s.wrapped, by simp, fun _ => by simp⟩
  | cons client rest ih =>
    rw [List.foldl_cons]
    cases wraps : adapter.wraps with
    | false =>
      obtain ⟨wrapped, same, -⟩ := ih (s.dispose adapter client) (by simp [wraps])
      refine ⟨wrapped, ?_, by simp⟩
      rw [same]
      simp [dispose, wraps]
    | true =>
      have inside := (known wraps).subset List.mem_cons_self
      have left : rest.Subperm (s.wrapped.erase client) := by
        simpa using (known wraps).erase client
      have first : s.dispose adapter client =
          { s with wrapped := s.wrapped.erase client, closes := s.closes ++ [client] } := by
        simp [dispose, wraps, inside]
      obtain ⟨wrapped, same, balanced⟩ := ih (s.dispose adapter client) fun _ => by
        rw [first]
        exact left
      refine ⟨wrapped, ?_, fun _ => ?_⟩
      · rw [same, first]
        simp
      · have rest := balanced wraps
        rw [first] at rest
        exact (List.perm_middle.trans (rest.cons client)).trans (List.perm_cons_erase inside).symm

/-! ### Where the clients are -/

/-- Every client that the adapter has constructed is accounted for. -/
structure Accounted (adapter : Adapter) (s : AdaptedPool κ) : Prop where
  sourced : s.system.Sourced
  /-- The pool knows how far the calls of the factory have come. -/
  follows : s.system.pool.factoryCalls.map FactoryCall.outcome = s.makings.map Making.outcome
  constructed : (s.makings.filterMap Making.client).Perm (List.range s.clients.length)
  closed : s.closes.Perm (s.makings.filterMap Making.abandoned ++
    s.system.pool.disposeCalls.map Prod.fst)
  wrapped : adapter.wraps = true →
    (s.wrapped ++ s.system.pool.disposeCalls.map Prod.fst).Perm s.system.pool.made
  /-- A client was constructed for the key that its call of the factory is made for. -/
  keyed : ∀ (c : Nat) making client, s.makings[c]? = some making → making.client = some client →
    ∃ key, s.clients[client]? = some key ∧ s.system.pool.callKey c = some key

/-- A new pool has no clients. -/
theorem accounted_init (options : PoolOptions) (adapter : Adapter) :
    Accounted adapter (init options : AdaptedPool κ) where
  -- There are neither calls nor clients.
  sourced := ProtectedPool.sourced_init options
  follows := rfl
  constructed := .refl _
  closed := .refl _
  wrapped := fun _ => .refl _
  keyed := fun c making client found => by simp [init] at found

namespace Accounted

/-- What the factory made are the clients that its calls resolved with. -/
theorem made_eq (accounted : Accounted adapter s) :
    s.system.pool.made = s.makings.filterMap fun making => making.outcome.value? := by
  -- The adapter's calls follow the pool's, outcome by outcome.
  have same := congrArg (List.filterMap Outcome.value?) accounted.follows
  rwa [List.filterMap_map, List.filterMap_map] at same

/-- The places of the clients are distinct. -/
theorem perm_clients (accounted : Accounted adapter s) :
    (s.makings.filterMap Making.abandoned ++
      (s.system.pool.made ++ s.makings.filterMap Making.unopened)).Perm
        (List.range s.clients.length) := by
  -- Every client belongs to one making, which is abandoned, made or still unopened.
  rw [accounted.made_eq]
  exact (Making.clients_perm s.makings).symm.trans accounted.constructed

/-- The resources that the factory made are distinct. -/
theorem made_nodup (accounted : Accounted adapter s) : s.system.pool.made.Nodup := by
  -- They are among the places, no two of which are equal.
  have all := accounted.perm_clients.nodup_iff.mpr List.nodup_range
  exact (List.nodup_append.mp (List.nodup_append.mp all).2.1).1

/-- Every call of the factory is known to the adapter. -/
theorem length_makings (accounted : Accounted adapter s) :
    s.makings.length = s.system.pool.factoryCalls.length := by
  -- The adapter's calls follow the pool's one by one.
  have same := congrArg List.length accounted.follows
  rw [List.length_map, List.length_map] at same
  exact same.symm

/-- A call of the factory that goes on without settling is still where the pool takes it to be. -/
theorem follows_setMaking {before after : Making} (accounted : Accounted adapter s)
    (found : s.makings[c]? = some before) (same : after.outcome = before.outcome) :
    s.system.pool.factoryCalls.map FactoryCall.outcome =
      (s.makings.modify c fun _ => after).map Making.outcome := by
  -- The outcome is what the pool knows of a call, and that stays.
  refine accounted.follows.trans (Arena.map_modify_of_eq Making.outcome fun making read => ?_).symm
  cases read.symm.trans found
  exact same

/-! ### What each outcome does to the accounts -/

/-- A client is constructed for the key of its call. -/
theorem construct (accounted : Accounted adapter s) (found : s.makings[c]? = some .configuring)
    (owner : s.system.pool.callKey c = some key) : Accounted adapter (s.constructing c key) where
  sourced := accounted.sourced
  follows := accounted.follows_setMaking found rfl
  constructed := by
    -- The new client is the next one.
    have moved := Arena.filterMap_modify_perm (fun _ => Making.opening s.clients.length)
      Making.client found
    show ((s.makings.modify c fun _ => .opening s.clients.length).filterMap Making.client).Perm
      (List.range (s.clients ++ [key]).length)
    rw [List.length_append, List.length_singleton, List.range_succ]
    exact moved.trans (((accounted.constructed.cons _)).trans (List.perm_append_singleton _ _).symm)
  closed := by
    have moved := Arena.filterMap_modify_perm (fun _ => Making.opening s.clients.length)
      Making.abandoned found
    exact accounted.closed.trans (moved.symm.append_right _)
  wrapped := accounted.wrapped
  keyed := by
    intro i making client read has
    rcases Arena.getElem?_modify_cases read with ⟨rfl, old, before, rfl⟩ | ⟨-, before⟩
    · obtain rfl : s.clients.length = client := by simpa [Making.client] using has
      exact ⟨key, List.getElem?_concat_length, owner⟩
    · obtain ⟨key', known, owner'⟩ := accounted.keyed i making client before has
      exact ⟨key', Arena.getElem?_push_of_some _ known, owner'⟩

/-- A client that could not be opened or wrapped is closed at once. -/
theorem giveUp (accounted : Accounted adapter s) (found : s.makings[c]? = some (.opening client)) :
    Accounted adapter (s.giveUp c client) where
  sourced := accounted.sourced
  follows := accounted.follows_setMaking found rfl
  constructed := by
    have moved := Arena.filterMap_modify_perm (fun _ => Making.closing client) Making.client found
    exact ((List.perm_cons client).mp moved).trans accounted.constructed
  closed := by
    have moved := Arena.filterMap_modify_perm (fun _ => Making.closing client)
      Making.abandoned found
    -- The client is closed as it is abandoned.
    have closed := (List.perm_append_singleton client s.closes).trans (accounted.closed.cons client)
    exact closed.trans (moved.symm.append_right _)
  wrapped := accounted.wrapped
  keyed := by
    intro i making other read has
    rcases Arena.getElem?_modify_cases read with ⟨rfl, old, before, rfl⟩ | ⟨-, before⟩
    · exact accounted.keyed c (.opening client) other found has
    · exact accounted.keyed i making other before has

/-- A call of the factory settles, with what has become of its client. -/
theorem settle {before : Making} {answer : Option ClientId} {system : ProtectedPool κ ClientId}
    (accounted : Accounted adapter s) (after : Making) (wrapped : List ClientId)
    (found : s.makings[c]? = some before)
    (client : after.client = before.client) (abandoned : after.abandoned = before.abandoned)
    (settled : after.outcome = .ofAnswer answer)
    (stepped : s.system.step options settings (.pool (.factorySettled c answer)) = some system)
    (gained : adapter.wraps = true → wrapped.Perm (answer.toList ++ s.wrapped)) :
    Accounted adapter { s.setMaking c after with system, wrapped } := by
  have effect := ProtectedPool.effect_of_step stepped
  obtain ⟨call, called, outstanding, rfl⟩ := ProtectedPool.factorySettled_eq stepped
  -- The pool and the adapter agree on what becomes of the call.
  have follows : (s.system.pool.factoryCalls.modify c fun call =>
      { call with outcome := .ofAnswer answer }).map FactoryCall.outcome =
        (s.makings.modify c fun _ => after).map Making.outcome := by
    rw [Arena.map_modify_commute FactoryCall.outcome (fun _ => .ofAnswer answer) fun _ _ => rfl,
      Arena.map_modify_commute Making.outcome (fun _ => .ofAnswer answer) fun _ _ => settled,
      accounted.follows]
  -- The call was pending for both of them.
  have pending : before.outcome = .pending := by
    have same := congrArg (fun outcomes => outcomes[c]?) accounted.follows
    simpa [called, found, outstanding] using same.symm
  -- What was made is what the makings resolved to.
  have made : (answer.toList ++ s.system.pool.made).Perm
      ((s.makings.modify c fun _ => after).filterMap fun making => making.outcome.value?) := by
    have moved := Arena.filterMap_modify_perm (fun _ => after)
      (fun making => making.outcome.value?) found
    rw [pending, settled, value?_ofAnswer] at moved
    rw [accounted.made_eq]
    exact moved.symm
  refine
    { sourced := effect.sourced accounted.sourced
      follows, constructed := ?_, closed := ?_, wrapped := fun wraps => ?_, keyed := ?_ }
  · have moved := Arena.filterMap_modify_perm (fun _ => after) Making.client found
    rw [client] at moved
    exact ((List.perm_append_left_iff _).mp moved).trans accounted.constructed
  · have moved := Arena.filterMap_modify_perm (fun _ => after) Making.abandoned found
    rw [abandoned] at moved
    exact accounted.closed.trans (((List.perm_append_left_iff _).mp moved).symm.append_right _)
  · have same : State.made { s.system.pool with
        factoryCalls := s.system.pool.factoryCalls.modify c fun call =>
          { call with outcome := .ofAnswer answer } } =
        (s.makings.modify c fun _ => after).filterMap fun making => making.outcome.value? := by
      have values := congrArg (List.filterMap Outcome.value?) follows
      rwa [List.filterMap_map, List.filterMap_map] at values
    show (wrapped ++ s.system.pool.disposeCalls.map Prod.fst).Perm (State.made _)
    rw [same]
    refine ((gained wraps).append_right _).trans ?_
    rw [List.append_assoc]
    exact ((accounted.wrapped wraps).append_left _).trans made
  -- The key of a client is the one of the call it was made for.
  · intro i making other read has
    have known : ∃ key, s.clients[other]? = some key ∧ s.system.pool.callKey i = some key := by
      rcases Arena.getElem?_modify_cases read with ⟨rfl, old, present, rfl⟩ | ⟨-, present⟩
      · exact accounted.keyed c before other found (client ▸ has)
      · exact accounted.keyed i making other present has
    obtain ⟨key, there, owner⟩ := known
    exact ⟨key, there, effect.callKey accounted.sourced owner⟩

/-- A call of the factory resolves with its client. -/
theorem resolve (accounted : Accounted adapter s) (found : s.makings[c]? = some (.opening client))
    (resolved : s.resolve options settings adapter c client = some next) :
    Accounted adapter next := by
  have told := step_of_resolve resolved
  obtain ⟨system, -, rfl⟩ := Option.map_eq_some_iff.mp resolved
  -- The map of the adapter comes to know the wrapper of the client, if it has one.
  cases wraps : adapter.wraps with
  | false =>
    have kept := accounted.settle (.resolved client) s.wrapped found rfl rfl rfl told
      (by simp [wraps])
    simpa [wraps, setMaking] using kept
  | true =>
    have kept := accounted.settle (.resolved client) (s.wrapped ++ [client]) found rfl rfl rfl
      told fun _ => List.perm_append_singleton client s.wrapped
    simpa [wraps, setMaking] using kept

/-- The pool moves on, and the adapter does what it is called for. -/
theorem follow {action : ProtectedAction κ ClientId} {system : ProtectedPool κ ClientId}
    (accounted : Accounted adapter s) (alien : action.ofFactory = false)
    (stepped : s.system.step options settings action = some system) :
    Accounted adapter (s.follow adapter system) := by
  have effect := ProtectedPool.effect_of_step stepped
  have sourced := effect.sourced accounted.sourced
  obtain ⟨more, outcomes⟩ := effect.outcomes accounted.sourced alien
  obtain ⟨disposed, calls⟩ := effect.disposals accounted.sourced
  -- Calls of the factory begin, and none of them has constructed a client yet.
  have grown : system.pool.factoryCalls.length - s.makings.length = more := by
    have length := congrArg List.length outcomes
    simp only [List.length_append, List.length_map, List.length_replicate] at length
    rw [length, accounted.length_makings]
    omega
  have nothing (view : Making → Option ClientId) (unseen : view .configuring = none) :
      (s.makings ++ List.replicate more Making.configuring).filterMap view =
        s.makings.filterMap view := by
    rw [List.filterMap_append, List.filterMap_replicate_of_none unseen, List.append_nil]
  have follows : system.pool.factoryCalls.map FactoryCall.outcome =
      (s.makings ++ List.replicate more Making.configuring).map Making.outcome := by
    rw [outcomes, accounted.follows, List.map_append, List.map_replicate]
    rfl
  have made : system.pool.made = s.system.pool.made := by
    have values := congrArg (List.filterMap Outcome.value?) follows
    rw [List.filterMap_map, List.filterMap_map] at values
    exact values.trans ((nothing (fun making => making.outcome.value?) rfl).trans
      accounted.made_eq.symm)
  -- What is disposed of was made, and has not been disposed of before.
  have known : adapter.wraps = true → (disposed.map Prod.fst).Subperm s.wrapped := by
    intro wraps
    have tracked := sourced.tracked_nodup (made ▸ accounted.made_nodup)
    rw [State.tracked, ← calls, List.map_append, List.map_append] at tracked
    have inside : s.system.pool.disposeCalls.map Prod.fst ++ disposed.map Prod.fst ⊆
        s.system.pool.made := by
      intro client disposed
      rw [← List.map_append, calls] at disposed
      rw [← made]
      refine sourced.tracked_subset ?_
      rw [State.tracked, List.map_append]
      exact List.mem_append_left _ disposed
    have all := List.subperm_of_subset (List.nodup_append.mp tracked).1 inside
    have there := (accounted.wrapped wraps).symm.trans List.perm_append_comm
    exact (List.subperm_append_left _).mp (there.subperm_left.mp all)
  obtain ⟨wrapped, same, balanced⟩ := foldl_dispose (disposed.map Prod.fst)
    { s with system, makings := s.makings ++ List.replicate more Making.configuring } known
  have next : s.follow adapter system =
      { s with
        system, wrapped
        makings := s.makings ++ List.replicate more Making.configuring
        closes := s.closes ++ disposed.map Prod.fst } := by
    rw [AdaptedPool.follow, ← calls, List.drop_left, grown]
    exact same
  rw [next]
  refine
    { sourced, follows, constructed := ?_, closed := ?_, wrapped := fun wraps => ?_, keyed := ?_ }
  · show (List.filterMap Making.client _).Perm _
    rw [nothing Making.client rfl]
    exact accounted.constructed
  · show (s.closes ++ disposed.map Prod.fst).Perm (List.filterMap Making.abandoned _ ++ _)
    rw [nothing Making.abandoned rfl, ← calls, List.map_append, ← List.append_assoc]
    exact accounted.closed.append_right _
  · show (wrapped ++ system.pool.disposeCalls.map Prod.fst).Perm system.pool.made
    rw [made, ← calls, List.map_append]
    refine List.Perm.trans ?_ (accounted.wrapped wraps)
    exact (List.perm_append_comm_assoc _ _ _).trans
      ((balanced wraps).append_left _ |>.trans List.perm_append_comm)
  · intro i making other read has
    rcases Nat.lt_or_ge i s.makings.length with before | beyond
    · have read : (s.makings ++ List.replicate more .configuring)[i]? = some making := read
      rw [List.getElem?_append_left before] at read
      obtain ⟨key, there, owner⟩ := accounted.keyed i making other read has
      exact ⟨key, there, effect.callKey accounted.sourced owner⟩
    · have read : (s.makings ++ List.replicate more .configuring)[i]? = some making := read
      rw [List.getElem?_append_right beyond] at read
      cases List.eq_of_mem_replicate (List.mem_of_getElem? read)
      cases has

end Accounted

/-- Every step leaves every client accounted for. -/
theorem Effect.accounted (effect : Effect options settings adapter s action next)
    (accounted : Accounted adapter s) : Accounted adapter next := by
  -- A client that need not be opened is taken to be opened in the same step.
  have begun {c : FactoryId} {key : κ} (found : s.makings[c]? = some .configuring) :
      (s.constructing c key).makings[c]? = some (.opening s.clients.length) :=
    Arena.getElem?_modify_self _ found
  cases effect with
  | system action system alien stepped => exact accounted.follow alien stepped
  | failed c system found stepped =>
    exact accounted.settle (.rejected none) s.wrapped found rfl rfl rfl stepped fun _ => .refl _
  | constructed c key found owner => exact accounted.construct found owner
  | made c key next found owner resolved =>
    exact (accounted.construct found owner).resolve (begun found) resolved
  | unwrapped c key found owner =>
    exact (accounted.construct found owner).giveUp (begun found)
  | opened c client next found resolved => exact accounted.resolve found resolved
  | unopened c client found => exact accounted.giveUp found
  | closed c client system found stepped =>
    exact accounted.settle (.rejected (some client)) s.wrapped found rfl rfl rfl stepped
      fun _ => .refl _

/-- Every client is accounted for throughout every run. -/
theorem accounted_throughout (options : PoolOptions) (settings : InMemoryCircuitBreakerOptions)
    (adapter : Adapter) (actions : List (AdapterAction κ)) :
    Runs.Throughout (step options settings adapter) (Accounted adapter) (init options) actions :=
  -- Every step keeps the account.
  Runs.throughout_of_invariant (Accounted adapter)
    (fun _ _ _ accounted stepped => (effect_of_step stepped).accounted accounted)
    (accounted_init options adapter) actions

/-! ### No client is lost -/

/-- The clients that are the resources of undisposed entries. -/
def inStock (s : AdaptedPool κ) : List ClientId :=
  (undisposedResources s.system.pool.heap).map Prod.fst

/-- Clients are closed once, unless the pool has use for them. -/
structure ClosesOnce (s : AdaptedPool κ) : Prop where
  /-- No client is closed twice, and none is closed that is the resource of an undisposed entry. -/
  once : (s.closes ++ s.inStock).Nodup
  constructed : ∀ client ∈ s.closes ++ s.inStock, client < s.clients.length
  /-- Once everything has settled no client is forgotten. -/
  complete : s.system.pool.Settled → ∀ client < s.clients.length, client ∈ s.closes ++ s.inStock

/-- Closed clients and clients in stock are abandoned clients and clients the pool tracks. -/
theorem Accounted.closes_perm (accounted : Accounted adapter s) :
    (s.closes ++ s.inStock).Perm
      (s.makings.filterMap Making.abandoned ++ s.system.pool.tracked) := by
  -- What was closed splits into the abandoned clients and the calls of `dispose`.
  refine (accounted.closed.append_right _).trans ?_
  rw [State.tracked, List.map_append, List.append_assoc]
  exact .refl _

/-- Once everything has settled no client is about to be opened. -/
theorem Accounted.unopened_of_settled (accounted : Accounted adapter s)
    (settled : s.system.pool.Settled) : s.makings.filterMap Making.unopened = [] := by
  rw [List.filterMap_eq_nil_iff]
  intro making inside
  have known : making.outcome ∈ s.system.pool.factoryCalls.map FactoryCall.outcome := by
    rw [accounted.follows]
    exact List.mem_map_of_mem inside
  -- The call of the factory would be pending while it opens its client.
  obtain ⟨call, present, same⟩ := List.mem_map.mp known
  have landed := settled.2 call present
  cases making with
  | opening client =>
    rw [same] at landed
    cases landed
  | configuring | closing | resolved | rejected => rfl

/-- Once everything has settled each client was closed, or is in stock. -/
theorem Accounted.closes_perm_range (accounted : Accounted adapter s)
    (settled : s.system.pool.Settled) :
    (s.closes ++ s.inStock).Perm (List.range s.clients.length) := by
  -- Nothing is unopened any more, and what the factory made is what the pool tracks.
  have places := accounted.perm_clients
  rw [accounted.unopened_of_settled settled, List.append_nil] at places
  have made := accounted.sourced.tracked_perm_made accounted.made_nodup settled
  exact (accounted.closes_perm.trans (made.append_left _)).trans places

/-- Clients that are accounted for are closed once. -/
theorem Accounted.closesOnce (accounted : Accounted adapter s) : ClosesOnce s := by
  have sourced := accounted.sourced
  have tracked := sourced.tracked_nodup accounted.made_nodup
  -- What the pool tracks was made, and what was made or abandoned was constructed.
  have held : (s.closes ++ s.inStock).Subperm (List.range s.clients.length) := by
    have made := List.subperm_of_subset tracked sourced.tracked_subset
    have places := accounted.perm_clients
    rw [← List.append_assoc] at places
    refine accounted.closes_perm.subperm_right.mpr (places.subperm_left.mp ?_)
    exact ((List.subperm_append_left _).mpr made).trans (List.sublist_append_left _ _).subperm
  refine ⟨?_, fun client inside => ?_, fun settled client constructed => ?_⟩
  · obtain ⟨clients, same, sublist⟩ := held
    exact same.nodup_iff.mp (sublist.nodup List.nodup_range)
  · exact List.mem_range.mp (held.subset inside)
  · exact (accounted.closes_perm_range settled).mem_iff.mpr (List.mem_range.mpr constructed)

/-- Throughout every run of an adapter each client is closed at most once, and none is lost. -/
theorem closesOnce_throughout (options : PoolOptions) (settings : InMemoryCircuitBreakerOptions)
    (adapter : Adapter) (actions : List (AdapterAction κ)) :
    Runs.Throughout (step options settings adapter) ClosesOnce (init options) actions :=
  -- It is read off the account in every state.
  (accounted_throughout options settings adapter actions).mono fun _ accounted =>
    accounted.closesOnce

/-! ### No client is lent for another key -/

/-- Clients are lent, and disposed of, for the keys that they were constructed for. -/
structure Isolated (s : AdaptedPool κ) : Prop where
  /-- Every handle was given to a call of `acquire` with the key of its client. -/
  lent : ∀ (h : Nat) handle entry, s.system.pool.handles[h]? = some handle →
    s.system.pool.heap[handle.entry]? = some entry →
      ∃ (a : Nat) (acquire : Acquire κ), s.system.pool.acquires[a]? = some acquire ∧
        acquire.phase = .fulfilled h ∧ s.clients[entry.resource]? = some acquire.key
  disposed : ∀ client key, (client, key) ∈ s.system.pool.disposeCalls →
    s.clients[client]? = some key

/-- A client that was handed over was constructed for the key that it was handed over for. -/
theorem Accounted.key_of_handedOver (accounted : Accounted adapter s)
    (handed : (client, key) ∈ handedOver s.system.pool.execs) :
    s.clients[client]? = some key := by
  obtain ⟨call, made, value, exec, found, rfl⟩ := accounted.sourced.made_of_handedOver handed
  obtain ⟨c, called⟩ := List.mem_iff_getElem?.mp made
  -- The adapter resolved that call with the client.
  have outcome := congrArg (fun outcomes => outcomes[c]?) accounted.follows
  simp only [List.getElem?_map, called, Option.map_some] at outcome
  obtain ⟨making, read, same⟩ := Option.map_eq_some_iff.mp outcome.symm
  have resolved : making.client = some client := by
    rw [← same] at value
    cases making <;> simp_all [Making.outcome, Making.client, Outcome.value?]
  obtain ⟨key, known, owner⟩ := accounted.keyed c making client read resolved
  rw [known, ← owner, State.callKey, called, Option.bind_some, found, Option.map_some]

omit [DecidableEq κ] in
/-- Closing clients does not touch the pool. -/
theorem system_foldl_dispose (disposed : List ClientId) (s : AdaptedPool κ) :
    (disposed.foldl (dispose adapter) s).system = s.system := by
  -- Each call of `dispose` writes the map and the closed clients at most.
  induction disposed generalizing s with
  | nil => rfl
  | cons client rest ih =>
    rw [List.foldl_cons, ih, dispose]
    split
    · split <;> rfl
    · rfl

/-- The pool makes the step that it is asked for, or is told of its factory, or does nothing. -/
theorem Effect.system_moves (effect : Effect options settings adapter s action next) :
    next.system = s.system ∨ ∃ inner, s.system.step options settings inner = some next.system ∧
      (inner.ofFactory = true ∨ action = .system inner) := by
  -- A call of the factory that settles is reported to the pool in the same step.
  cases effect with
  | system inner system alien stepped =>
    refine .inr ⟨inner, stepped.trans ?_, .inr rfl⟩
    rw [follow, system_foldl_dispose]
  | failed c system found stepped | closed c client system found stepped =>
    exact .inr ⟨_, stepped, .inl rfl⟩
  | made c key next found owner resolved | opened c client next found resolved =>
    have told := step_of_resolve resolved
    exact .inr ⟨_, told, .inl rfl⟩
  | constructed | unwrapped | unopened => exact .inl rfl

/--
What the steps of the breakers and of the factory keep is kept of the pool, if the step that the
pool is asked for keeps it.
-/
theorem kept_of_pool (inv : State κ ClientId → Prop)
    (may : State κ ClientId → Action κ ClientId → Prop)
    (kept : ∀ pool own next, inv pool → may pool own → pool.step options own = some next →
      inv next)
    (others : ∀ pool own, (own.ofBreaker || (ProtectedAction.pool own).ofFactory) = true →
      may pool own)
    (asked : ∀ own, action = .system (.pool own) → may s.system.pool own)
    (holds : inv s.system.pool) (stepped : s.step options settings adapter action = some next) :
    inv next.system.pool := by
  rcases (effect_of_step stepped).system_moves with same | ⟨inner, moved, source⟩
  · exact same ▸ holds
  · refine ProtectedPool.kept_of_pool inv may kept
      (fun pool own mine => others pool own (by simp [mine])) (fun own same => ?_) holds moved
    subst same
    -- The step of the pool is a settlement of the factory, or the one asked for.
    rcases source with factory | rfl
    · exact others _ own (by simp [factory])
    · exact asked own rfl

/-- What every step of a pool keeps holds of the pool throughout every run of its adapter. -/
theorem throughout_of_pool (options : PoolOptions) (inv : State κ ClientId → Prop)
    (kept : ∀ pool action next, inv pool → pool.step options action = some next → inv next)
    (start : inv (.init options)) (settings : InMemoryCircuitBreakerOptions) (adapter : Adapter)
    (actions : List (AdapterAction κ)) :
    Runs.Throughout (step options settings adapter) (fun s => inv s.system.pool) (init options)
      actions := by
  refine Runs.throughout_of_invariant (fun s : AdaptedPool κ => inv s.system.pool)
    (fun s action next holds stepped => ?_) start actions
  -- Whoever makes a step, it is one of the pool.
  exact kept_of_pool inv (fun _ _ => True)
    (fun pool own next holds _ led => kept pool own next holds led) (fun _ _ _ => trivial)
    (fun _ _ => trivial) holds stepped

/-- Throughout every run of an adapter no client is lent, or disposed of, for another key. -/
theorem isolated_throughout (options : PoolOptions) (settings : InMemoryCircuitBreakerOptions)
    (adapter : Adapter) (actions : List (AdapterAction κ)) :
    Runs.Throughout (step options settings adapter) Isolated (init options) actions := by
  have handed := throughout_of_pool options
    (fun pool : State κ ClientId => Core pool ∧ pool.Handed)
    (fun _ _ _ ⟨core, handed⟩ stepped =>
      ⟨State.core_step core stepped, State.Handed.step handed core stepped⟩)
    ⟨State.core_init options, State.handed_init options⟩ settings adapter actions
  refine ((accounted_throughout options settings adapter actions).both handed).mono ?_
  rintro s ⟨accounted, core, handed⟩
  have sourced := accounted.sourced
  refine ⟨fun h handle entry issued present => ?_, fun client key called => ?_⟩
  · -- The handle was given to a call of the key of its entry.
    obtain ⟨a, acquire, handle', entry', called, phase, issued', present', key⟩ :=
      handed h (List.getElem?_eq_some_iff.mp issued).1
    cases issued.symm.trans issued'
    cases present.symm.trans present'
    exact ⟨a, acquire, called, phase,
      key ▸ accounted.key_of_handedOver (sourced.stocked entry (List.mem_of_getElem? present))⟩
  · exact accounted.key_of_handedOver
      (sourced.ledger.placed.mem_iff.mp (List.mem_append_left _ called))

end AdaptedPool

end RefPool
