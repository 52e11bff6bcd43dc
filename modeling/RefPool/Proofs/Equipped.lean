import RefPool.Proofs.Breaker
import RefPool.Proofs.ProtectedEffect
import RefPool.Proofs.SingleFlight

/-! In-memory breakers call the factory once for each exec and hand over what it makes. -/

namespace RefPool

variable {κ τ : Type}

namespace ExecStage

/-- What an exec at this stage settles with, if it settles now. -/
def yield : ExecStage τ → Option τ
  | .refused | .awaiting _ => none
  | .recorded outcome => outcome

/-- Whether an exec at this stage is about a factory call that has come this far. -/
def Follows : ExecStage τ → FactoryId → Outcome τ → Prop
  | .refused, _, _ => False
  | .awaiting call, c, _ => call = c
  | .recorded outcome, _, landed => landed = .ofAnswer outcome

end ExecStage

namespace ProtectedPool

/-- How the execs of the pool, the factory calls and the calls on the breakers belong together. -/
structure Linked (execs : List (Exec κ τ)) (calls : List (FactoryCall τ))
    (runs : List (BreakerRun τ)) : Prop where
  aligned : runs.length = execs.length
  /-- Every factory call is that of an exec, which follows it. -/
  followed : ∀ (c : Nat) call, calls[c]? = some call →
    ∃ run, runs[call.exec]? = some run ∧ run.stage.Follows c call.outcome
  /-- No exec has two factory calls. -/
  once : (calls.map FactoryCall.exec).Nodup
  /-- An exec that awaits a factory call is pending, and the call is its own. -/
  awaited : ∀ (x : Nat) run c, runs[x]? = some run → run.stage = .awaiting c →
    (∃ call, calls[c]? = some call ∧ call.exec = x) ∧
      ∃ exec, execs[x]? = some exec ∧ exec.outcome = .pending
  /-- An exec that has settled did so with what its stage yields. -/
  yielded : ∀ (x : Nat) run exec, runs[x]? = some run → execs[x]? = some exec →
    exec.outcome = .pending ∨ exec.outcome = .ofAnswer run.stage.yield

namespace Linked

variable {execs : List (Exec κ τ)} {calls : List (FactoryCall τ)} {runs : List (BreakerRun τ)}

/-- At first there are none of them. -/
theorem empty : Linked ([] : List (Exec κ τ)) ([] : List (FactoryCall τ)) [] := by
  -- There is nothing to link.
  constructor <;> simp

/-- The execs of all factory calls differ. -/
theorem apart (linked : Linked execs calls runs) {c c' : Nat} {call call' : FactoryCall τ}
    (found : calls[c]? = some call) (found' : calls[c']? = some call')
    (same : call.exec = call'.exec) : c = c' := by
  -- The execs of the calls are listed without repetition.
  have bounded : c < (calls.map FactoryCall.exec).length := by
    rw [List.length_map]
    exact (List.getElem?_eq_some_iff.mp found).1
  apply (List.getElem?_inj bounded linked.once).mp
  simp [found, found', same]

/-- A factory call names an exec that is there. -/
theorem bounded (linked : Linked execs calls runs) {call : FactoryCall τ}
    (inside : call ∈ calls) : call.exec < runs.length := by
  -- The exec of a call is followed by the call, so that it has a run.
  obtain ⟨c, found⟩ := List.mem_iff_getElem?.mp inside
  obtain ⟨run, present, -⟩ := linked.followed c call found
  exact (List.getElem?_eq_some_iff.mp present).1

/-- A new exec is pending. -/
theorem pushed (linked : Linked execs calls runs) (fresh : BreakerRun τ) (a : AcquireId) (key : κ)
    (x : Nat) (run : BreakerRun τ) (exec : Exec κ τ) (present : (runs ++ [fresh])[x]? = some run)
    (there : (execs ++ [⟨a, key, .pending⟩])[x]? = some exec) :
    exec.outcome = .pending ∨ exec.outcome = .ofAnswer run.stage.yield := by
  rcases Arena.getElem?_push_cases there with ⟨-, rfl⟩ | before
  · exact .inl rfl
  · rcases Arena.getElem?_push_cases present with ⟨rfl, -⟩ | before'
    -- The two lists are equally long, so that the older execs have their older runs.
    · rw [linked.aligned] at before
      simp at before
    · exact linked.yielded x run exec before' before

/-- A factory call lands. -/
theorem land {c : FactoryId} {call : FactoryCall τ} {outcome : Outcome τ}
    (linked : Linked execs calls runs) (found : calls[c]? = some call)
    (outstanding : call.outcome = .pending) :
    Linked execs (calls.modify c fun call => { call with outcome }) runs where
  aligned := linked.aligned
  -- The exec of the call awaits it, so that any outcome will do.
  followed := by
    intro i other read
    rcases Arena.getElem?_modify_cases read with ⟨rfl, old, before, rfl⟩ | ⟨-, before⟩
    · obtain ⟨run, present, follows⟩ := linked.followed c old before
      cases found.symm.trans before
      refine ⟨run, present, ?_⟩
      cases stage : run.stage with
      | refused => simp [stage, ExecStage.Follows] at follows
      | awaiting awaited => simpa [stage, ExecStage.Follows] using follows
      | recorded answer =>
        rw [stage, outstanding] at follows
        cases answer <;> cases follows
    · exact linked.followed i other before
  once := by
    have same : (calls.modify c fun call => { call with outcome }).map FactoryCall.exec =
        calls.map FactoryCall.exec := Arena.map_modify_of_eq FactoryCall.exec fun _ _ => rfl
    rw [same]
    exact linked.once
  awaited := by
    intro x run i present stage
    obtain ⟨⟨other, before, same⟩, pending⟩ := linked.awaited x run i present stage
    refine ⟨?_, pending⟩
    by_cases differ : c = i
    · subst differ
      exact ⟨_, Arena.getElem?_modify_self _ before, same⟩
    · exact ⟨other, by rw [Arena.getElem?_modify_other _ _ differ]; exact before, same⟩
  yielded := linked.yielded

/-- An exec begins and is refused. -/
theorem refuse (linked : Linked execs calls runs) (a : AcquireId) (key : κ) (b : BreakerId) :
    Linked (execs ++ [⟨a, key, .pending⟩]) calls (runs ++ [⟨b, .refused⟩]) where
  aligned := by simp [linked.aligned]
  -- A refused exec has no call that it could follow.
  followed := by
    intro c call found
    obtain ⟨run, present, follows⟩ := linked.followed c call found
    exact ⟨run, Arena.getElem?_push_of_some _ present, follows⟩
  once := linked.once
  awaited := by
    intro x run c present stage
    rcases Arena.getElem?_push_cases present with ⟨-, rfl⟩ | before
    · cases stage
    · obtain ⟨call, exec, same, outstanding⟩ := linked.awaited x run c before stage
      exact ⟨call, exec, Arena.getElem?_push_of_some _ same, outstanding⟩
  yielded := linked.pushed ⟨b, .refused⟩ a key

/-- An exec begins and calls the factory. -/
theorem call (linked : Linked execs calls runs) (a : AcquireId) (key : κ) (b : BreakerId) :
    Linked (execs ++ [⟨a, key, .pending⟩]) (calls ++ [⟨runs.length, .pending⟩])
      (runs ++ [⟨b, .awaiting calls.length⟩]) where
  aligned := by simp [linked.aligned]
  -- The new call is the one that the new exec awaits.
  followed := by
    intro c call found
    rcases Arena.getElem?_push_cases found with ⟨rfl, rfl⟩ | before
    · exact ⟨⟨b, .awaiting calls.length⟩, List.getElem?_concat_length, rfl⟩
    · obtain ⟨run, present, follows⟩ := linked.followed c call before
      exact ⟨run, Arena.getElem?_push_of_some _ present, follows⟩
  once := by
    rw [List.map_append, List.map_singleton, List.nodup_append]
    refine ⟨linked.once, List.nodup_singleton _, fun x inside y fresh => ?_⟩
    obtain ⟨call, before, rfl⟩ := List.mem_map.mp inside
    rw [List.mem_singleton.mp fresh]
    exact Nat.ne_of_lt (linked.bounded before)
  awaited := by
    intro x run c present stage
    rcases Arena.getElem?_push_cases present with ⟨rfl, rfl⟩ | before
    · obtain rfl : calls.length = c := by simpa using stage
      refine ⟨⟨_, List.getElem?_concat_length, rfl⟩, ⟨a, key, .pending⟩, ?_, rfl⟩
      rw [linked.aligned]
      exact List.getElem?_concat_length
    · obtain ⟨⟨call, made, same⟩, exec, there, outstanding⟩ := linked.awaited x run c before stage
      exact ⟨⟨call, Arena.getElem?_push_of_some _ made, same⟩, exec,
        Arena.getElem?_push_of_some _ there, outstanding⟩
  yielded := linked.pushed ⟨b, .awaiting calls.length⟩ a key

/-- An exec records how its factory call ended. -/
theorem record {x : ExecId} {run : BreakerRun τ} {c : FactoryId} {call : FactoryCall τ}
    {outcome : Option τ} (linked : Linked execs calls runs) (found : runs[x]? = some run)
    (stage : run.stage = .awaiting c) (made : calls[c]? = some call)
    (landed : call.outcome = .ofAnswer outcome) :
    Linked execs calls (runs.modify x fun run => { run with stage := .recorded outcome }) where
  aligned := by rw [List.length_modify, linked.aligned]
  followed := by
    intro i other read
    obtain ⟨kept, present, follows⟩ := linked.followed i other read
    by_cases same : x = other.exec
    · subst same
      cases found.symm.trans present
      -- The exec awaited this very call.
      obtain rfl : c = i := by simpa [stage, ExecStage.Follows] using follows
      cases made.symm.trans read
      exact ⟨_, Arena.getElem?_modify_self _ found, landed⟩
    · exact ⟨kept, by rw [Arena.getElem?_modify_other _ _ same]; exact present, follows⟩
  once := linked.once
  awaited := by
    intro y other i read waiting
    rcases Arena.getElem?_modify_cases read with ⟨rfl, old, before, rfl⟩ | ⟨-, before⟩
    · cases waiting
    · exact linked.awaited y other i before waiting
  yielded := by
    intro y other exec read there
    rcases Arena.getElem?_modify_cases read with ⟨rfl, old, before, rfl⟩ | ⟨-, before⟩
    · cases found.symm.trans before
      obtain ⟨-, exec', there', outstanding⟩ := linked.awaited x run c found stage
      cases there.symm.trans there'
      exact .inl outstanding
    · exact linked.yielded y other exec before there

/-- An exec settles with what its stage yields. -/
theorem finish {x : ExecId} {run : BreakerRun τ} {outcome : Option τ}
    (linked : Linked execs calls runs) (found : runs[x]? = some run)
    (stage : run.stage = .refused ∧ outcome = none ∨ run.stage = .recorded outcome) :
    Linked (execs.modify x fun exec => { exec with outcome := .ofAnswer outcome }) calls
      runs where
  aligned := by rw [List.length_modify, linked.aligned]
  followed := linked.followed
  once := linked.once
  -- The exec does not await anything by then.
  awaited := by
    intro y other c read waiting
    obtain ⟨call, exec, there, outstanding⟩ := linked.awaited y other c read waiting
    refine ⟨call, exec, ?_, outstanding⟩
    rw [Arena.getElem?_modify_other _ _ ?_]
    · exact there
    · rintro rfl
      cases found.symm.trans read
      rcases stage with ⟨stage, -⟩ | stage <;> cases stage.symm.trans waiting
  yielded := by
    intro y other exec read there
    rcases Arena.getElem?_modify_cases there with ⟨rfl, old, before, rfl⟩ | ⟨-, before⟩
    · cases found.symm.trans read
      refine .inr ?_
      rcases stage with ⟨stage, rfl⟩ | stage <;> rw [stage] <;> rfl
    · exact linked.yielded y other exec read before

end Linked

variable [DecidableEq κ] {options : PoolOptions} {settings : InMemoryCircuitBreakerOptions}
  {s next : ProtectedPool κ τ}

/-- What holds in every run of a pool with its breakers. -/
structure Equipped (s : ProtectedPool κ τ) : Prop where
  core : Core s.pool
  linked : Linked s.pool.execs s.pool.factoryCalls s.runs

/-- A new pool is equipped. -/
theorem equipped_init (options : PoolOptions) :
    Equipped (init options : ProtectedPool κ τ) :=
  -- A new pool satisfies its invariant, and has no execs.
  ⟨State.core_init options, .empty⟩

/-- Every step leaves a pool equipped. -/
theorem Effect.equipped {action : ProtectedAction κ τ} (equipped : Equipped s)
    (effect : Effect options settings s action next) : Equipped next := by
  obtain ⟨core, linked⟩ := equipped
  obtain ⟨moves, ran⟩ := effect.moves
  refine ⟨Runs.run_invariant Core (fun _ _ _ kept stepped => State.core_step kept stepped) core
    ran, ?_⟩
  -- The listener of the pool touches neither execs nor factory calls.
  cases effect with
  | passed action pool foreign stepped =>
    show Linked pool.execs pool.factoryCalls s.runs
    cases (State.step_effect stepped).flow core.store with
    | still _ execs calls =>
      rw [execs, calls]
      exact linked
    | landed c answer call found outstanding execs calls =>
      rw [execs, calls]
      exact linked.land found outstanding
    | started | called | finished => cases foreign
  | called a acquire bank b breaker after heard creation stepped =>
    obtain ⟨objects, counts, events, rfl, -⟩ := heard_eq creation.told
    exact linked.call a acquire.key b
  | refused a acquire bank b breaker after admission heard creation =>
    obtain ⟨objects, counts, events, rfl, -⟩ := heard_eq creation.told
    exact linked.refuse a acquire.key b
  | recorded x run c call outcome breaker heard found stage made landed known told =>
    obtain ⟨objects, counts, events, rfl, -⟩ := heard_eq told
    exact linked.record found stage made landed
  | settled x run outcome pool found stage stepped =>
    cases State.step_effect stepped with
    | execRejected | execLate | inserted => exact linked.finish found stage

/-- A pool is equipped throughout every run. -/
theorem equipped_throughout (options : PoolOptions) (settings : InMemoryCircuitBreakerOptions)
    (actions : List (ProtectedAction κ τ)) :
    Runs.Throughout (step options settings) Equipped (init options) actions :=
  -- Every step keeps the pool equipped.
  Runs.throughout_of_invariant Equipped
    (fun _ _ _ equipped stepped => (effect_of_step stepped).equipped equipped)
    (equipped_init options) actions

/-- The factory calls of an equipped pool fly one at a time for each exec. -/
theorem Equipped.flights (equipped : Equipped s) :
    State.Flights s.pool.execs s.pool.factoryCalls where
  within := by
    intro c call found outstanding
    obtain ⟨run, present, follows⟩ := equipped.linked.followed c call found
    -- A call in flight is awaited by its exec, which is pending.
    cases stage : run.stage with
    | refused => simp [stage, ExecStage.Follows] at follows
    | awaiting awaited => exact (equipped.linked.awaited _ run _ present stage).2
    | recorded answer =>
      rw [stage, outstanding] at follows
      cases answer <;> cases follows
  serial := by
    intro c c' call call' found found' _ _ same
    exact equipped.linked.apart found found' same

/-- With in-memory breakers every run is single flight throughout. -/
theorem singleFlight_protected (options : PoolOptions) (settings : InMemoryCircuitBreakerOptions)
    (actions : List (ProtectedAction κ τ)) :
    Runs.Throughout (step options settings) (fun s => s.pool.SingleFlight) (init options)
      actions :=
  -- What is linked gives the execs and calls that a flight consists of.
  (equipped_throughout options settings actions).mono fun _ equipped =>
    State.singleFlight_of_core equipped.core equipped.flights

omit [DecidableEq κ] in
/-- The resources that fulfilled an exec are read off exec by exec. -/
theorem yielded_eq (s : State κ τ) :
    s.yielded = (List.range s.execs.length).filterMap fun x =>
      (s.execs[x]?).bind fun exec => exec.outcome.value? := by
  rw [Arena.filterMap_range, State.yielded, handedOver, List.map_filterMap]
  -- The key of an exec is dropped again.
  refine List.filterMap_congr fun exec _ => ?_
  cases exec.outcome <;> rfl

/-- An equipped pool hands over what a factory call made as soon as its exec has settled. -/
theorem Equipped.handsOver (equipped : Equipped s) : s.pool.HandsOver := by
  have linked := equipped.linked
  -- A settled exec has the outcome of its factory call.
  have same : s.pool.due = ((s.pool.factoryCalls.filter fun call =>
      !awaited s.pool.execs call.exec).map FactoryCall.exec).filterMap fun x =>
        (s.pool.execs[x]?).bind fun exec => exec.outcome.value? := by
    rw [State.due, resolvedIn, List.filterMap_map]
    refine List.filterMap_congr fun call chosen => ?_
    obtain ⟨inside, finished⟩ := List.mem_filter.mp chosen
    obtain ⟨c, found⟩ := List.mem_iff_getElem?.mp inside
    obtain ⟨run, present, follows⟩ := linked.followed c call found
    have bounded := linked.aligned ▸ linked.bounded inside
    have there := List.getElem?_eq_getElem bounded
    show call.outcome.value? = (s.pool.execs[call.exec]?).bind fun exec => exec.outcome.value?
    rw [there, Option.bind_some]
    have ended : s.pool.execs[call.exec].outcome ≠ .pending := by
      intro outstanding
      simp [awaited, there, outstanding, Outcome.isPending] at finished
    have yields := (linked.yielded _ run _ present there).resolve_left ended
    cases stage : run.stage with
    | refused => simp [stage, ExecStage.Follows] at follows
    | awaiting awaited =>
      obtain ⟨-, exec, there', outstanding⟩ := linked.awaited _ run _ present stage
      cases there.symm.trans there'
      exact absurd outstanding ended
    | recorded answer =>
      rw [stage] at follows yields
      rw [yields, show call.outcome = _ from follows]
      rfl
  rw [State.HandsOver, same, yielded_eq]
  -- No exec has two calls, so that the calls name each exec once at most.
  have once : ((s.pool.factoryCalls.filter fun call =>
      !awaited s.pool.execs call.exec).map FactoryCall.exec).Nodup :=
    linked.once.sublist (List.filter_sublist.map _)
  obtain ⟨names, perm, sublist⟩ := List.subperm_of_subset once fun x inside => by
    obtain ⟨call, before, rfl⟩ := List.mem_map.mp inside
    exact List.mem_range.mpr (linked.aligned ▸ linked.bounded (List.mem_filter.mp before).1)
  exact ⟨_, perm.filterMap _, sublist.filterMap _⟩

/-- With in-memory breakers the pool drops nothing that the factory makes. -/
theorem dropsNothing_protected (options : PoolOptions) (settings : InMemoryCircuitBreakerOptions)
    (actions : List (ProtectedAction κ τ)) :
    Runs.Throughout (step options settings) (fun s => s.pool.DropsNothing) (init options)
      actions := by
  -- The ledger places whatever is handed over.
  have placed := throughout_of_pool options
    (fun pool : State κ τ => Core pool ∧ State.Ledger pool)
    (fun pool action next ⟨core, ledger⟩ stepped =>
      ⟨State.core_step core stepped, (State.step_effect stepped).ledger core.store ledger⟩)
    ⟨State.core_init options, State.ledger_init options⟩ settings actions
  refine (placed.both (equipped_throughout options settings actions)).mono ?_
  rintro s ⟨⟨core, ledger⟩, equipped⟩
  exact ledger.tracked_perm.subperm_left.mpr equipped.handsOver

end ProtectedPool

end RefPool
