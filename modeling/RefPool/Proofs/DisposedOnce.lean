import RefPool.Proofs.Breaker
import RefPool.Proofs.Handover

/-! No resource that the factory made is passed to `dispose` twice. -/

namespace RefPool.State

variable {κ τ : Type} {s next : State κ τ}

/-- The factory resolves with a resource it has not resolved with before. -/
def MakesFresh (s : State κ τ) : Action κ τ → Prop
  | .factorySettled _ (some resource) => resource ∉ s.made
  | _ => True

/-- A breaker fulfils `exec` only with what the factory resolved with within that `exec`. -/
def Relays (s : State κ τ) : Action κ τ → Prop
  | .execSettled x (some resource) =>
      ∃ call ∈ s.factoryCalls, call.exec = x ∧ call.outcome.value? = some resource
  | _ => True

/-- No resource has been passed to `dispose` twice. -/
def DisposedOnce (s : State κ τ) : Prop := (s.disposeCalls.map Prod.fst).Nodup

/-- Whether a factory makes fresh resources can be checked. -/
instance [DecidableEq τ] (s : State κ τ) (action : Action κ τ) :
    Decidable (s.MakesFresh action) := by
  induction action using Action.casesOn with
  | factorySettled c answer =>
    match answer with
    | none | some _ => unfold MakesFresh; infer_instance
  | _ => unfold MakesFresh; infer_instance

/-- Whether a breaker relays what the factory made can be checked. -/
instance [DecidableEq τ] (s : State κ τ) (action : Action κ τ) : Decidable (s.Relays action) := by
  induction action using Action.casesOn with
  | execSettled x answer =>
    match answer with
    | none | some _ => unfold Relays; infer_instance
  | _ => unfold Relays; infer_instance

/-- Whether a resource was disposed of twice can be checked. -/
instance [DecidableEq τ] (s : State κ τ) : Decidable s.DisposedOnce := by
  unfold DisposedOnce
  infer_instance

/-- The resources made are distinct, and a fulfilled exec has one that was made within it. -/
structure Provenance (s : State κ τ) : Prop where
  distinct : s.made.Nodup
  sourced : ∀ (x : ExecId) (exec : Exec κ τ) (resource : τ), s.execs[x]? = some exec →
    exec.outcome.value? = some resource →
    ∃ call ∈ s.factoryCalls, call.exec = x ∧ call.outcome.value? = some resource

/-- A new pool has made nothing. -/
theorem provenance_init (options : PoolOptions) : Provenance (init options : State κ τ) :=
  -- There are no calls of the factory.
  ⟨List.nodup_nil, fun _ _ _ found => by simp [init] at found⟩

/-- A factory call that has resolved is not affected by another one that settles. -/
theorem mem_land {calls : List (FactoryCall τ)} {c : FactoryId} {call other : FactoryCall τ}
    {resource : τ} (answer : Option τ) (found : calls[c]? = some call)
    (outstanding : call.outcome = .pending) (inside : other ∈ calls)
    (resolved : other.outcome.value? = some resource) :
    other ∈ calls.modify c fun call => { call with outcome := .ofAnswer answer } := by
  obtain ⟨i, read⟩ := List.mem_iff_getElem?.mp inside
  -- The call that settles was pending, so it is not the one that has resolved.
  have differ : c ≠ i := by
    rintro rfl
    rw [found, Option.some.injEq] at read
    subst read
    rw [outstanding] at resolved
    cases resolved
  exact List.mem_of_getElem? (i := i) (by rw [Arena.getElem?_modify_other _ _ differ, read])

/-- A step of a fresh factory and a relaying breaker keeps track of where resources come from. -/
theorem Flow.provenance {action : Action κ τ} (flow : Flow s next action)
    (fresh : s.MakesFresh action) (relays : s.Relays action) (known : Provenance s) :
    Provenance next := by
  -- The cases follow the ways in which the execs and the factory calls can move.
  obtain ⟨distinct, sourced⟩ := known
  cases flow with
  | still _ execs calls =>
    refine ⟨by rw [made, calls]; exact distinct, fun x exec resource found fulfilled => ?_⟩
    rw [execs] at found
    rw [calls]
    exact sourced x exec resource found fulfilled
  | started a answer key execs calls =>
    refine ⟨by rw [made, calls]; exact distinct, fun x exec resource found fulfilled => ?_⟩
    rw [execs] at found
    rw [calls]
    rcases Arena.getElem?_push_cases found with ⟨-, rfl⟩ | before
    -- The new exec is pending.
    · cases fulfilled
    · exact sourced x exec resource before fulfilled
  | called y exec found execs calls =>
    -- A call that has not settled makes nothing.
    refine ⟨?_, fun x exec resource found fulfilled => ?_⟩
    · rw [made, calls, List.filterMap_append]
      show (s.made ++ []).Nodup
      rw [List.append_nil]
      exact distinct
    · rw [execs] at found
      obtain ⟨call, inside, own, value⟩ := sourced x exec resource found fulfilled
      exact ⟨call, by rw [calls]; exact List.mem_append_left _ inside, own, value⟩
  | landed c answer call found outstanding execs calls =>
    refine ⟨?_, fun x exec resource read fulfilled => ?_⟩
    -- What the call resolves with is new among the resources made.
    · have all (calls : List (FactoryCall τ)) :
          (calls.filterMap fun call => call.outcome.value?) = resolvedIn calls fun _ => true := by
        simp [resolvedIn]
      have gained := resolvedIn_land (fun _ => true) found outstanding rfl answer
      rw [made, calls, all, gained.nodup_iff, ← all]
      cases answer with
      | none => exact distinct
      | some resource => exact List.nodup_cons.mpr ⟨fresh, distinct⟩
    · rw [execs] at read
      obtain ⟨other, inside, own, value⟩ := sourced x exec resource read fulfilled
      exact ⟨other, by rw [calls]; exact mem_land answer found outstanding inside value, own, value⟩
  | finished y answer exec found outstanding execs calls =>
    refine ⟨by rw [made, calls]; exact distinct, fun x other resource read fulfilled => ?_⟩
    rw [execs] at read
    rw [calls]
    rcases Arena.getElem?_modify_cases read with ⟨rfl, old, -, rfl⟩ | ⟨-, before⟩
    -- The exec that settles fulfils with a resource made within it.
    · rw [value?_ofAnswer] at fulfilled
      subst fulfilled
      exact relays
    · exact sourced x other resource before fulfilled

/-- Different execs fulfil with different resources. -/
theorem Provenance.yielded_nodup (known : Provenance s) : s.yielded.Nodup := by
  -- Calls of different execs are different calls, and these made different resources.
  have apart : ∀ call ∈ s.factoryCalls, ∀ other ∈ s.factoryCalls, call.exec ≠ other.exec →
      ∀ resource, call.outcome.value? = some resource → other.outcome.value? ≠ some resource := by
    have pairs := List.pairwise_filterMap.mp known.distinct
    intro call inside other inside'
    refine List.Pairwise.forall_of_forall_of_flip
      (R := fun call other : FactoryCall τ => call.exec ≠ other.exec → ∀ resource,
        call.outcome.value? = some resource → other.outcome.value? ≠ some resource)
      (fun _ _ differ => (differ rfl).elim) (pairs.imp ?_) (pairs.imp ?_) inside inside'
    · exact fun apart _ resource left right => apart resource left resource right rfl
    · exact fun apart _ resource left right => apart resource right resource left rfl
  have values : s.yielded = s.execs.filterMap fun exec => exec.outcome.value? := by
    simp [yielded, handedOver, List.map_filterMap, Function.comp_def]
  rw [values]
  refine List.pairwise_filterMap.mpr (List.pairwise_iff_getElem.mpr ?_)
  rintro i j left right less resource value _ value' rfl
  -- Each of the two execs leads back to a factory call of its own.
  obtain ⟨call, inside, own, made⟩ :=
    known.sourced i _ resource (List.getElem?_eq_getElem left) value
  obtain ⟨other, inside', own', made'⟩ :=
    known.sourced j _ resource (List.getElem?_eq_getElem right) value'
  have differ : call.exec ≠ other.exec := by
    rw [own, own']
    exact Nat.ne_of_lt less
  exact apart call inside other inside' differ resource made made'

/-- Distinct resources that are each tracked once are each disposed of at most once. -/
theorem Ledger.disposedOnce (ledger : Ledger s) (known : Provenance s) : s.DisposedOnce := by
  -- The dispose calls are a part of what is tracked, which is what was yielded.
  have distinct := (ledger.tracked_perm.nodup_iff).mpr known.yielded_nodup
  rw [tracked, List.map_append] at distinct
  exact (List.nodup_append.mp distinct).1

variable [DecidableEq κ]

/-- Every run of a fresh factory and a relaying breaker disposes of each resource at most once. -/
theorem disposedOnce_throughout (options : PoolOptions) (actions : List (Action κ τ))
    (fresh : Runs.Guarded (step options) MakesFresh (init options) actions)
    (relays : Runs.Guarded (step options) Relays (init options) actions) :
    Runs.Throughout (step options) DisposedOnce (init options) actions := by
  -- The provenance of resources is carried along the run, next to the ledger.
  have known := (fresh.both relays).throughout (fun s : State κ τ => Core s ∧ Provenance s)
    (fun s action next ⟨core, known⟩ ⟨fresh, relays⟩ stepped =>
      ⟨core_step core stepped,
        ((step_effect stepped).flow core.store).provenance fresh relays known⟩)
    ⟨core_init options, provenance_init options⟩
  exact ((ledger_throughout options actions).both known).mono
    fun s ⟨ledger, _, known⟩ => ledger.disposedOnce known

/-- A drain and a failed validation race for one resource, and another one comes too late. -/
theorem disposedOnce_throughout_racing :
    let options : PoolOptions := { max := 2, validate := true }
    let racing : List (Action Nat Nat) :=
      [.acquire 7, .obtain 0, .create 0 .threw, .factoryCalled 0, .factorySettled 0 (some 70),
        .execSettled 0 (some 70), .deliver 0, .releaseHandle 0, .acquire 7, .obtain 1,
        .acquire 8, .obtain 2, .create 2 .threw, .factoryCalled 1, .drain,
        .validated 1 (some false), .drain, .disposeSettled 0, .factorySettled 1 (some 80),
        .execSettled 1 (some 80), .lateDisposeSettled 2]
    Runs.Throughout (step options) DisposedOnce (init options) racing ∧
      (Runs.run (step options) (init options) racing).map State.disposeCalls =
        some [(70, 7), (80, 8)] :=
  -- The failed validation finds the disposal begun by the drain, and 80 comes after both drains.
  ⟨disposedOnce_throughout _ _ (by decide) (by decide), by decide⟩

end RefPool.State
