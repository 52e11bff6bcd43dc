import RefPool.Model.ProtectedPool
import RefPool.Proofs.Bank
import RefPool.Proofs.Flow

/-! What each step of a pool with its breakers can do, said once. -/

namespace RefPool

namespace State

variable {κ τ : Type}

/-- A granted call of `obtain` has its breaker and calls `exec`. -/
def starting (s : State κ τ) (a : AcquireId) (key : κ) (bank : BreakerBank κ) : State κ τ :=
  State.setPhase
    { s with
      toBreakerBank := bank
      execs := s.execs ++ [{ acquire := a, key, outcome := .pending }] } a
    (.creating s.execs.length)

/-- The breakers of a pool have changed state, and the pool may have heard of it. -/
def hearing (s : State κ τ) (objects : List (Breaker κ)) (counts : BreakerCounts)
    (events : List (Emitted κ)) : State κ τ :=
  { s with objects, counters := { s.counters with breaker := counts }, events }

end State

namespace ProtectedPool

variable {κ τ : Type} [DecidableEq κ] {options : PoolOptions}
  {settings : InMemoryCircuitBreakerOptions} {s next : ProtectedPool κ τ}

/-- The listener of the pool touches what it counts and announces only. -/
theorem heard_eq {pool heard : State κ τ} {b : BreakerId} {news : List BreakerState}
    (told : Runs.run (State.step options) pool (news.map (.breakerChanged b)) = some heard) :
    ∃ objects counts events, heard = pool.hearing objects counts events ∧
      objects.length = pool.objects.length := by
  -- One state after the other is announced.
  induction news generalizing pool with
  | nil =>
    rw [List.map_nil, Runs.run_nil, Option.some.injEq] at told
    exact ⟨pool.objects, pool.counters.breaker, pool.events, told.symm, rfl⟩
  | cons state rest ih =>
    rw [List.map_cons, Runs.run_cons_eq_some] at told
    obtain ⟨middle, stepped, ran⟩ := told
    obtain ⟨objects, counts, events, same, length⟩ := ih ran
    cases State.step_effect stepped with
    | breakerChanged _ _ middleCounts middleEvents =>
      refine ⟨objects, counts, events, same, length.trans ?_⟩
      exact List.length_modify _ _ _

/-- A creation up to the point where the breaker has answered. -/
structure Creation (options : PoolOptions) (settings : InMemoryCircuitBreakerOptions)
    (s : ProtectedPool κ τ) (a : AcquireId) (acquire : Acquire κ) (bank : BreakerBank κ)
    (b : BreakerId) (breaker after : InMemoryCircuitBreaker) (admission : Admission)
    (heard : State κ τ) : Prop where
  called : s.pool.acquires[a]? = some acquire
  phase : acquire.phase = .granted
  resolved : s.pool.toBreakerBank.resolveBreaker options.breaker acquire.key (.made true) =
    some bank
  started : s.pool.step options (.create a (.made true)) =
    some (s.pool.starting a acquire.key bank)
  bound : breakerFor options (s.pool.starting a acquire.key bank) acquire.key = some b
  found : ({ s with pool := s.pool.starting a acquire.key bank } :
    ProtectedPool κ τ).equip.breakers[b]? = some breaker
  answered : breaker.exec settings s.pool.now (fun _ => false) = (after, admission)
  told : announce options (s.pool.starting a acquire.key bank) b breaker after = some heard

/-- The breakers once a creation has its breaker at hand. -/
def equipped (s : ProtectedPool κ τ) (bank : BreakerBank κ) : List InMemoryCircuitBreaker :=
  s.breakers ++ List.replicate (bank.objects.length - s.breakers.length) .new

/-- The outcomes of a step, one constructor for each way it can go. -/
inductive Effect (options : PoolOptions) (settings : InMemoryCircuitBreakerOptions)
    (s : ProtectedPool κ τ) : ProtectedAction κ τ → ProtectedPool κ τ → Prop
  /-- The pool makes a step of its own. -/
  | passed (action : Action κ τ) (pool : State κ τ) (foreign : action.ofBreaker = false)
      (stepped : s.pool.step options action = some pool) :
      Effect options settings s (.pool action) { s with pool }
  /-- A breaker admits the call, and the factory is called. -/
  | called (a : AcquireId) (acquire : Acquire κ) (bank : BreakerBank κ) (b : BreakerId)
      (breaker after : InMemoryCircuitBreaker) (heard : State κ τ)
      (creation : Creation options settings s a acquire bank b breaker after .admitted heard)
      (stepped : heard.step options (.factoryCalled s.runs.length) =
        some { heard with
          factoryCalls := heard.factoryCalls ++
            [{ exec := s.runs.length, outcome := .pending }] }) :
      Effect options settings s (.create a)
        { pool := { heard with
            factoryCalls := heard.factoryCalls ++
              [{ exec := s.runs.length, outcome := .pending }] }
          breakers := (s.equipped bank).modify b fun _ => after
          runs := s.runs ++
            [{ breaker := b, stage := .awaiting s.pool.factoryCalls.length }] }
  /-- A breaker does not admit the call. -/
  | refused (a : AcquireId) (acquire : Acquire κ) (bank : BreakerBank κ) (b : BreakerId)
      (breaker after : InMemoryCircuitBreaker) (admission : Admission) (heard : State κ τ)
      (creation : Creation options settings s a acquire bank b breaker after admission heard)
      (unadmitted : admission ≠ .admitted) :
      Effect options settings s (.create a)
        { pool := heard
          breakers := (s.equipped bank).modify b fun _ => after
          runs := s.runs ++ [{ breaker := b, stage := .refused }] }
  /-- A breaker records how a factory call ended. -/
  | recorded (x : ExecId) (run : BreakerRun τ) (c : FactoryId) (call : FactoryCall τ)
      (outcome : Option τ) (breaker : InMemoryCircuitBreaker) (heard : State κ τ)
      (found : s.runs[x]? = some run) (stage : run.stage = .awaiting c)
      (made : s.pool.factoryCalls[c]? = some call) (landed : call.outcome = .ofAnswer outcome)
      (known : s.breakers[run.breaker]? = some breaker)
      (told : announce options s.pool run.breaker breaker
        (breaker.settle settings s.pool.now (fun _ => false) (resultOf outcome)).1 =
          some heard) :
      Effect options settings s (.record x)
        { pool := heard
          breakers := s.breakers.modify run.breaker fun _ =>
            (breaker.settle settings s.pool.now (fun _ => false) (resultOf outcome)).1
          runs := s.runs.modify x fun run => { run with stage := .recorded outcome } }
  /-- A call of `exec` settles. -/
  | settled (x : ExecId) (run : BreakerRun τ) (outcome : Option τ) (pool : State κ τ)
      (found : s.runs[x]? = some run)
      (stage : run.stage = .refused ∧ outcome = none ∨ run.stage = .recorded outcome)
      (stepped : s.pool.step options (.execSettled x outcome) = some pool) :
      Effect options settings s (.settle x) { s with pool }

/-- A granted call is given a breaker, since the factory of the breakers always makes one. -/
theorem create_starts {pool : State κ τ} {a : AcquireId}
    (stepped : s.pool.step options (.create a (.made true)) = some pool) :
    ∃ acquire bank, s.pool.acquires[a]? = some acquire ∧ acquire.phase = .granted ∧
      s.pool.toBreakerBank.resolveBreaker options.breaker acquire.key (.made true) = some bank ∧
        pool = s.pool.starting a acquire.key bank := by
  obtain ⟨acquire, called, due⟩ := Option.bind_eq_some_iff.mp stepped
  cases phase : acquire.phase <;> simp only [phase, reduceCtorEq, Option.some.injEq] at due
  -- Only a factory that throws leaves the call without a breaker.
  unfold State.create at due
  cases resolved : s.pool.toBreakerBank.resolveBreaker options.breaker acquire.key (.made true) with
  | some bank =>
    simp only [resolved] at due
    exact ⟨acquire, bank, called, phase, resolved, due.symm⟩
  | none =>
    unfold BreakerBank.resolveBreaker at resolved
    split at resolved
    · cases resolved
    · split at resolved <;> cases resolved

/-- `exec` asks the breaker, which announces its change and admits the call or does not. -/
theorem exec_answers {b : BreakerId} (called : s.exec options settings b = some next) :
    ∃ breaker after admission heard, s.breakers[b]? = some breaker ∧
      breaker.exec settings s.pool.now (fun _ => false) = (after, admission) ∧
      announce options s.pool b breaker after = some heard ∧
      ((admission = .admitted ∧ ∃ pool,
          heard.step options (.factoryCalled s.runs.length) = some pool ∧
          next = ⟨pool, s.breakers.modify b fun _ => after,
            s.runs ++ [⟨b, .awaiting heard.factoryCalls.length⟩]⟩) ∨
        (admission ≠ .admitted ∧
          next = ⟨heard, s.breakers.modify b fun _ => after, s.runs ++ [⟨b, .refused⟩]⟩)) := by
  unfold exec at called
  rw [Option.bind_eq_some_iff] at called
  obtain ⟨breaker, found, called⟩ := called
  -- The pool hears of the change before the factory is called.
  cases answered : breaker.exec settings s.pool.now fun _ => false with
  | mk after admission =>
    simp only [answered] at called
    obtain ⟨heard, told, called⟩ := Option.bind_eq_some_iff.mp called
    refine ⟨breaker, after, admission, heard, found, answered, told, ?_⟩
    cases admission with
    | admitted =>
      obtain ⟨pool, stepped, rfl⟩ := Option.map_eq_some_iff.mp called
      exact .inl ⟨rfl, pool, stepped, rfl⟩
    | refused | threw => exact .inr ⟨by simp, (Option.some.inj called).symm⟩

/-- Every step has one of the effects. -/
theorem effect_of_step {action : ProtectedAction κ τ}
    (stepped : s.step options settings action = some next) :
    Effect options settings s action next := by
  cases action with
  | pool action =>
    obtain ⟨foreign, due⟩ := Option.ite_none_left_eq_some.mp stepped
    obtain ⟨pool, moved, rfl⟩ := Option.map_eq_some_iff.mp due
    exact .passed action pool (by simpa using foreign) moved
  | create a =>
    obtain ⟨pool, started, due⟩ := Option.bind_eq_some_iff.mp stepped
    obtain ⟨acquire, bank, called, phase, resolved, rfl⟩ := create_starts started
    obtain ⟨b, bound, due⟩ := Option.bind_eq_some_iff.mp due
    -- The call of the pool is the one that the step began with.
    have moved : (s.pool.starting a acquire.key bank).acquires[a]? =
        some { acquire with phase := .creating s.pool.execs.length } :=
      Arena.getElem?_modify_self _ called
    rw [moved, Option.bind_some] at bound
    obtain ⟨breaker, after, admission, heard, found, answered, told, due⟩ := exec_answers due
    have creation : Creation options settings s a acquire bank b breaker after admission heard :=
      ⟨called, phase, resolved, started, bound, found, answered, told⟩
    rcases due with ⟨rfl, pool, flown, rfl⟩ | ⟨unadmitted, rfl⟩
    · obtain ⟨objects, counts, events, same, -⟩ := heard_eq told
      have length : heard.factoryCalls.length = s.pool.factoryCalls.length := by rw [same]; rfl
      obtain ⟨exec, present, rfl⟩ := Option.map_eq_some_iff.mp flown
      rw [length]
      exact .called a acquire bank b breaker after heard creation flown
    · exact .refused a acquire bank b breaker after admission heard creation unadmitted
  | record x =>
    obtain ⟨run, found, due⟩ := Option.bind_eq_some_iff.mp stepped
    cases stage : run.stage with
    | refused | recorded => simp [stage] at due
    | awaiting c =>
      simp only [stage] at due
      obtain ⟨call, made, due⟩ := Option.bind_eq_some_iff.mp due
      -- Either way the breaker learns how the call ended.
      have ends (outcome : Option τ) (landed : call.outcome = .ofAnswer outcome)
          (recorded : s.record options settings x run.breaker outcome = some next) :
          Effect options settings s (.record x) next := by
        obtain ⟨breaker, known, recorded⟩ := Option.bind_eq_some_iff.mp recorded
        obtain ⟨heard, told, rfl⟩ := Option.map_eq_some_iff.mp recorded
        exact .recorded x run c call outcome breaker heard found stage made landed known told
      cases landed : call.outcome with
      | pending => simp [landed] at due
      | rejected => exact ends none landed (by simpa [landed] using due)
      | fulfilled resource => exact ends (some resource) landed (by simpa [landed] using due)
  | settle x =>
    obtain ⟨run, found, due⟩ := Option.bind_eq_some_iff.mp stepped
    cases stage : run.stage with
    | awaiting => simp [stage] at due
    | refused =>
      simp only [stage] at due
      obtain ⟨pool, moved, rfl⟩ := Option.map_eq_some_iff.mp due
      exact .settled x run none pool found (.inl ⟨stage, rfl⟩) moved
    | recorded outcome =>
      simp only [stage] at due
      obtain ⟨pool, moved, rfl⟩ := Option.map_eq_some_iff.mp due
      exact .settled x run outcome pool found (.inr stage) moved

/-- A step is made of steps that the breakers make, or is the step of the pool asked for. -/
theorem Effect.moves_among {action : ProtectedAction κ τ}
    (effect : Effect options settings s action next) :
    ∃ actions, Runs.run (State.step options) s.pool actions = some next.pool ∧
      ∀ other ∈ actions, other.ofBreaker = true ∨ action = .pool other := by
  -- What a breaker announces is heard of by the pool through its listener.
  have heard {b : BreakerId} {news : List BreakerState} {other : Action κ τ}
      (inside : other ∈ news.map (.breakerChanged b)) : other.ofBreaker = true := by
    obtain ⟨state, -, rfl⟩ := List.mem_map.mp inside
    rfl
  -- A creation is started, announced, and followed by a factory call where it is admitted.
  cases effect with
  | passed action pool foreign stepped =>
    exact ⟨[action], by simp [Runs.run, stepped], by simp⟩
  | called a acquire bank b breaker after told creation stepped =>
    refine ⟨.create a (.made true) ::
      ((after.announced.drop breaker.announced.length).map (.breakerChanged b) ++
        [.factoryCalled s.runs.length]), ?_, fun other inside => .inl ?_⟩
    · rw [Runs.run_cons_eq_some]
      refine ⟨_, creation.started, ?_⟩
      rw [Runs.run_append_eq_some]
      exact ⟨told, creation.told, by simp [Runs.run, stepped]⟩
    · rcases List.mem_cons.mp inside with rfl | inside
      · rfl
      · rcases List.mem_append.mp inside with inside | inside
        · exact heard inside
        · rw [List.mem_singleton.mp inside]
          rfl
  | refused a acquire bank b breaker after admission told creation =>
    refine ⟨.create a (.made true) ::
      (after.announced.drop breaker.announced.length).map (.breakerChanged b), ?_,
      fun other inside => .inl ?_⟩
    · rw [Runs.run_cons_eq_some]
      exact ⟨_, creation.started, creation.told⟩
    · rcases List.mem_cons.mp inside with rfl | inside
      · rfl
      · exact heard inside
  | recorded x run c call outcome breaker pool found stage made landed known told =>
    exact ⟨_, told, fun other inside => .inl (heard inside)⟩
  | settled x run outcome pool found stage stepped =>
    exact ⟨[.execSettled x outcome], by simp [Runs.run, stepped], by simp [Action.ofBreaker]⟩

/-- The steps of the pool that a step of the pool with its breakers is made of. -/
theorem Effect.moves {action : ProtectedAction κ τ}
    (effect : Effect options settings s action next) :
    ∃ actions, Runs.run (State.step options) s.pool actions = some next.pool := by
  -- Which steps they are does not matter here.
  obtain ⟨actions, ran, -⟩ := effect.moves_among
  exact ⟨actions, ran⟩

/--
What the steps of the breakers keep is kept of the pool, if the step that the pool is asked for
keeps it.
-/
theorem kept_of_pool {action : ProtectedAction κ τ} (inv : State κ τ → Prop)
    (may : State κ τ → Action κ τ → Prop)
    (kept : ∀ pool own next, inv pool → may pool own → pool.step options own = some next →
      inv next)
    (breaker : ∀ pool own, own.ofBreaker = true → may pool own)
    (asked : ∀ own, action = .pool own → may s.pool own) (holds : inv s.pool)
    (stepped : s.step options settings action = some next) : inv next.pool := by
  have effect := effect_of_step stepped
  obtain ⟨moves, ran, among⟩ := effect.moves_among
  cases effect with
  | passed own pool foreign led => exact kept s.pool own pool holds (asked own rfl) led
  | called | refused | recorded | settled =>
    -- All steps that the breakers make on the way are their own.
    have all : ∀ other ∈ moves, other.ofBreaker = true :=
      fun other inside => (among other inside).resolve_right (by simp)
    exact (Runs.guarded_of_forall all).run_invariant inv
      (fun pool own next holds mine led => kept pool own next holds (breaker pool own mine) led)
      holds ran

/-- What every step of a pool keeps holds of the pool throughout every run with its breakers. -/
theorem throughout_of_pool (options : PoolOptions) (inv : State κ τ → Prop)
    (kept : ∀ pool action next, inv pool → pool.step options action = some next → inv next)
    (start : inv (.init options)) (settings : InMemoryCircuitBreakerOptions)
    (actions : List (ProtectedAction κ τ)) :
    Runs.Throughout (step options settings) (fun s => inv s.pool) (init options) actions := by
  refine Runs.throughout_of_invariant (fun s : ProtectedPool κ τ => inv s.pool)
    (fun s action next holds stepped => ?_) start actions
  -- Whoever makes a step, it is one of the pool.
  exact kept_of_pool inv (fun _ _ => True)
    (fun pool own next holds _ led => kept pool own next holds led) (fun _ _ _ => trivial)
    (fun _ _ => trivial) holds stepped

end ProtectedPool

end RefPool
