import RefPool.Proofs.Handover

/-! What the factory makes is kept or disposed of exactly when the breaker hands it over. -/

namespace RefPool.State

variable {κ τ : Type} [DecidableEq κ] {options : PoolOptions} {s : State κ τ}

/-- The resources the factory resolved with. -/
def made (s : State κ τ) : List τ := s.factoryCalls.filterMap fun call => call.outcome.value?

/-- The resources that were inserted and not disposed of, or passed to `dispose`. -/
def tracked (s : State κ τ) : List τ :=
  (s.disposeCalls ++ undisposedResources s.heap).map Prod.fst

/-- The resources that fulfilled an exec. -/
def yielded (s : State κ τ) : List τ := (handedOver s.execs).map Prod.fst

/-- No exec and no factory call is outstanding. -/
def Settled (s : State κ τ) : Prop :=
  (∀ exec ∈ s.execs, exec.outcome.isPending = false) ∧
    ∀ call ∈ s.factoryCalls, call.outcome.isPending = false

/-- The resources that the factory resolved with in calls whose own exec has settled. -/
def due (s : State κ τ) : List τ := resolvedIn s.factoryCalls fun x => !awaited s.execs x

/--
No resource that the factory made is out of the pool's sight.

As soon as a factory call and its own exec have settled, the resource was inserted or passed to
`dispose`, whatever else is still in flight. Resources count as often as the factory resolved with
them.
-/
def DropsNothing (s : State κ τ) : Prop := s.due.Subperm s.tracked

/-- As soon as a factory call and its own exec have settled, an exec fulfilled with the resource. -/
def HandsOver (s : State κ τ) : Prop := s.due.Subperm s.yielded

/-- Whether a resource was dropped can be checked. -/
instance [DecidableEq τ] (s : State κ τ) : Decidable s.DropsNothing := by
  unfold DropsNothing
  infer_instance

/--
How a breaker made by `createOpossumBreaker` behaves.

`fire` runs the action once. It fulfils with the action's result, or rejects at any time, as after
its timeout, and then ignores what the action comes to.
-/
def FiresOnce (s : State κ τ) : Action κ τ → Prop
  | .factoryCalled x => (∀ exec ∈ s.execs[x]?, exec.outcome.isPending = true) ∧
      ∀ call ∈ s.factoryCalls, call.exec ≠ x
  | .execSettled x (some value) =>
      ∃ call ∈ s.factoryCalls, call.exec = x ∧ call.outcome.value? = some value
  | _ => True

/-- Whether a step is one that such a breaker makes can be checked. -/
instance [DecidableEq τ] (s : State κ τ) (action : Action κ τ) :
    Decidable (s.FiresOnce action) := by
  induction action using Action.casesOn with
  | execSettled x answer =>
    match answer with
    | none | some _ => unfold FiresOnce; infer_instance
  | _ => unfold FiresOnce; infer_instance

omit [DecidableEq κ] in
/-- Once everything has settled, whatever the factory made is due. -/
theorem due_of_settled (settled : s.Settled) : s.due = s.made := by
  -- No exec is awaited any more, so that the filter keeps all calls.
  have all : s.factoryCalls.filter (fun call => !awaited s.execs call.exec) = s.factoryCalls := by
    refine List.filter_eq_self.mpr fun call _ => ?_
    cases found : s.execs[call.exec]? with
    | none => simp [awaited, found]
    | some exec => simp [awaited, found, settled.1 exec (List.mem_of_getElem? found)]
  rw [due, resolvedIn, all, made]

omit [DecidableEq κ] in
/-- What the pool keeps track of is what the breaker handed over. -/
theorem Ledger.tracked_perm (ledger : Ledger s) : s.tracked.Perm s.yielded :=
  -- The ledger says so with the keys.
  ledger.placed.map Prod.fst

/-- The ledger holds throughout every run. -/
theorem ledger_throughout (options : PoolOptions) (actions : List (Action κ τ)) :
    Runs.Throughout (step options) Ledger (init options) actions := by
  -- The ledger is read in well-formed stores, so both are carried along.
  have kept := Runs.throughout_of_invariant (fun s : State κ τ => Core s ∧ Ledger s)
    (fun s action next ⟨core, ledger⟩ (stepped : s.step options action = some next) =>
      ⟨core_step core stepped, (step_effect stepped).ledger core.store ledger⟩)
    ⟨core_init options, ledger_init options⟩ actions
  exact kept.mono fun s ⟨_, ledger⟩ => ledger

/-- The pool drops nothing throughout a run exactly when its breaker hands everything over. -/
theorem dropsNothing_iff (options : PoolOptions) (actions : List (Action κ τ)) :
    Runs.Throughout (step options) DropsNothing (init options) actions ↔
      Runs.Throughout (step options) HandsOver (init options) actions := by
  -- In every state of a run the two lists of resources are the same up to order.
  refine Runs.throughout_congr (fun s (ledger : Ledger s) => ?_)
    (ledger_throughout options actions)
  unfold DropsNothing HandsOver
  rw [ledger.tracked_perm.subperm_left]

/--
The breaker rejects after its timeout; what the factory resolves with later is lost.

It is lost at once, while the factory is still busy for another key.
-/
theorem dropsNothing_timedOut :
    let options : PoolOptions := { max := 2 }
    let timedOut : List (Action Nat Nat) :=
      [.acquire 7, .obtain 0, .create 0 .threw, .factoryCalled 0, .acquire 8, .obtain 1,
        .create 1 .threw, .factoryCalled 1, .execSettled 0 none, .deliver 0,
        .factorySettled 0 (some 70)]
    Runs.Guarded (step options) FiresOnce (init options) timedOut ∧
      ¬ Runs.Throughout (step options) DropsNothing (init options) timedOut := by
  -- At the end 70 is due, since its own exec has rejected, and nobody has it.
  decide

end RefPool.State
