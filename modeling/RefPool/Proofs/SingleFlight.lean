import RefPool.Proofs.Flow

/-! Single flight: a key is being created, live, or orphaned, and never two of these at once. -/

namespace RefPool.State

variable {κ τ : Type} [DecidableEq κ] {options : PoolOptions} {s next : State κ τ}

/-- A factory call for a key has not settled. -/
def InFlight (s : State κ τ) (c : FactoryId) (key : κ) : Prop :=
  ∃ call exec, s.factoryCalls[c]? = some call ∧ call.outcome = .pending ∧
    s.execs[call.exec]? = some exec ∧ exec.key = key

/-- What a key can be at any moment, and what the two maps hold. -/
structure SingleFlight (s : State κ τ) : Prop where
  /-- While a factory call for a key is in flight neither map has the key. -/
  creating : ∀ c key, s.InFlight c key → s.entries.get? key = none ∧ s.orphans.get? key = none
  /-- Two factory calls for a key never overlap. -/
  once : ∀ c c' key, s.InFlight c key → s.InFlight c' key → c = c'
  /-- No key is in both maps. -/
  apart : ∀ key e, s.entries.get? key = some e → s.orphans.get? key = none
  /-- A live entry carries its key, and its disposal has not started. -/
  live : ∀ key e, s.entries.get? key = some e →
    ∃ entry, s.heap[e]? = some entry ∧ entry.key = key ∧ entry.disposing = false
  /-- An orphan carries its key, is condemned and held, and its disposal has not started. -/
  orphan : ∀ key e, s.orphans.get? key = some e →
    ∃ entry, s.heap[e]? = some entry ∧ entry.key = key ∧ entry.disposing = false ∧
      entry.condemned = true ∧ 0 < entry.refCount

/--
The breaker runs the wrapped factory within `exec`, one call at a time: it calls the factory only
while `exec` is pending and none of its calls is, and it settles `exec` only after the call.
-/
def OneCallAtATime (s : State κ τ) : Action κ τ → Prop
  | .factoryCalled x => (∀ exec ∈ s.execs[x]?, exec.outcome.isPending = true) ∧
      ∀ call ∈ s.factoryCalls, call.exec = x → call.outcome.isPending = false
  | .execSettled x _ => ∀ call ∈ s.factoryCalls, call.exec = x → call.outcome.isPending = false
  | _ => True

/-- Whether the breaker keeps to one call at a time can be checked. -/
instance (s : State κ τ) (action : Action κ τ) : Decidable (s.OneCallAtATime action) := by
  induction action using Action.casesOn <;> unfold OneCallAtATime <;> infer_instance

/-- A factory call in flight belongs to a pending exec, and no other call in flight does. -/
structure Flights (execs : List (Exec κ τ)) (calls : List (FactoryCall τ)) : Prop where
  within : ∀ (c : Nat) call, calls[c]? = some call → call.outcome = .pending →
    ∃ exec, execs[call.exec]? = some exec ∧ exec.outcome = .pending
  serial : ∀ (c c' : Nat) call call', calls[c]? = some call → calls[c']? = some call' →
    call.outcome = .pending → call'.outcome = .pending → call.exec = call'.exec → c = c'

omit [DecidableEq κ] in
/-- A promise that is not pending has settled. -/
theorem isPending_eq_true {outcome : Outcome τ} :
    outcome.isPending = true ↔ outcome = .pending := by
  -- There are three outcomes.
  cases outcome <;> simp [Outcome.isPending]

namespace Flights

variable {execs : List (Exec κ τ)} {calls : List (FactoryCall τ)}

omit [DecidableEq κ] in
/-- A new exec changes no flight. -/
theorem pushExec (flights : Flights execs calls) (exec : Exec κ τ) :
    Flights (execs ++ [exec]) calls where
  -- The older execs keep their positions.
  within := by
    intro c call found outstanding
    obtain ⟨owner, present, pending⟩ := flights.within c call found outstanding
    exact ⟨owner, Arena.getElem?_push_of_some _ present, pending⟩
  serial := flights.serial

omit [DecidableEq κ] in
/-- An exec settles when none of its calls is in flight. -/
theorem settleExec {x : ExecId} {outcome : Outcome τ} (flights : Flights execs calls)
    (landed : ∀ call ∈ calls, call.exec = x → call.outcome.isPending = false) :
    Flights (execs.modify x fun exec => { exec with outcome }) calls where
  -- A call in flight is of another exec, which is still pending.
  within := by
    intro c call found outstanding
    obtain ⟨owner, present, pending⟩ := flights.within c call found outstanding
    refine ⟨owner, ?_, pending⟩
    rw [Arena.getElem?_modify_other _ _ ?_, present]
    rintro rfl
    have settled := landed call (List.mem_of_getElem? found) rfl
    simp [outstanding, Outcome.isPending] at settled
  serial := flights.serial

omit [DecidableEq κ] in
/-- A pending exec without a call in flight starts one. -/
theorem takeOff {x : ExecId} {exec : Exec κ τ} (flights : Flights execs calls)
    (found : execs[x]? = some exec) (pending : exec.outcome = .pending)
    (landed : ∀ call ∈ calls, call.exec = x → call.outcome.isPending = false) :
    Flights execs (calls ++ [⟨x, .pending⟩]) where
  within := by
    intro c call read outstanding
    rcases Arena.getElem?_push_cases read with ⟨-, rfl⟩ | before
    · exact ⟨exec, found, pending⟩
    · exact flights.within c call before outstanding
  serial := by
    -- A call of the same exec that is in flight would have been so before.
    have new {c : Nat} {call : FactoryCall τ} (before : calls[c]? = some call)
        (outstanding : call.outcome = .pending) : call.exec ≠ x := by
      intro same
      have settled := landed call (List.mem_of_getElem? before) same
      simp [outstanding, Outcome.isPending] at settled
    intro c c' call call' read read' outstanding outstanding' same
    rcases Arena.getElem?_push_cases read with ⟨rfl, rfl⟩ | before <;>
      rcases Arena.getElem?_push_cases read' with ⟨rfl, rfl⟩ | before'
    · rfl
    · exact absurd same.symm (new before' outstanding')
    · exact absurd same (new before outstanding)
    · exact flights.serial c c' call call' before before' outstanding outstanding' same

omit [DecidableEq κ] in
/-- A call lands. -/
theorem land {c : FactoryId} {outcome : Outcome τ} (flights : Flights execs calls)
    (settled : outcome ≠ .pending) :
    Flights execs (calls.modify c fun call => { call with outcome }) := by
  -- What is in flight afterwards was so before.
  have before {i : Nat} {call : FactoryCall τ}
      (read : (calls.modify c fun call => { call with outcome })[i]? = some call)
      (outstanding : call.outcome = .pending) : calls[i]? = some call := by
    rcases Arena.getElem?_modify_cases read with ⟨rfl, old, -, rfl⟩ | ⟨-, present⟩
    · exact absurd outstanding settled
    · exact present
  exact ⟨fun i call read outstanding => flights.within i call (before read outstanding) outstanding,
    fun i i' call call' read read' outstanding outstanding' =>
      flights.serial i i' call call' (before read outstanding) (before read' outstanding')
        outstanding outstanding'⟩

end Flights

omit [DecidableEq κ] in
/-- A breaker that runs one call at a time keeps the flights in order. -/
theorem Flow.flights {action : Action κ τ} (flow : Flow s next action)
    (polite : s.OneCallAtATime action) (flights : Flights s.execs s.factoryCalls) :
    Flights next.execs next.factoryCalls := by
  -- Each way the execs and the calls can move has its law.
  cases flow with
  | still _ execs calls =>
    rw [execs, calls]
    exact flights
  | started a answer key execs calls =>
    rw [execs, calls]
    exact flights.pushExec _
  | called x exec found execs calls =>
    rw [execs, calls]
    exact flights.takeOff found (isPending_eq_true.mp (polite.1 exec found)) polite.2
  | landed c answer call found outstanding execs calls =>
    rw [execs, calls]
    exact flights.land (by cases answer <;> simp [Outcome.ofAnswer])
  | finished x answer exec found outstanding execs calls =>
    rw [execs, calls]
    exact flights.settleExec polite

/-- A key has one pending exec at most. -/
theorem pending_apart (core : Core s) {x y : ExecId} {exec exec' : Exec κ τ}
    (found : s.execs[x]? = some exec) (found' : s.execs[y]? = some exec')
    (pending : exec.outcome = .pending) (pending' : exec'.outcome = .pending)
    (same : exec.key = exec'.key) : x = y := by
  obtain ⟨acquire, called, key, phase⟩ := core.execs.awaited x exec found pending
  obtain ⟨acquire', called', key', phase'⟩ := core.execs.awaited y exec' found' pending'
  -- Both execs belong to the one call of the key that is in its turn.
  by_cases alone : exec.acquire = exec'.acquire
  · rw [← alone, called] at called'
    cases called'
    exact Phase.creating.inj (phase.symm.trans phase')
  · exact absurd (key'.trans (same.symm.trans key.symm)) (alone_of_running core called
      (by rw [phase]; rfl) _ acquire' alone called' (by rw [phase']; rfl))

/-- The invariant of every run, with flights in order, is single flight. -/
theorem singleFlight_of_core (core : Core s) (flights : Flights s.execs s.factoryCalls) :
    s.SingleFlight where
  -- A call in flight belongs to a pending exec, and that to an acquire suspended in its creation.
  creating := by
    rintro c key ⟨call, exec, found, outstanding, owner, rfl⟩
    obtain ⟨other, present, pending⟩ := flights.within c call found outstanding
    cases owner.symm.trans present
    obtain ⟨acquire, called, same, phase⟩ := core.execs.awaited _ exec owner pending
    have fits := core.fits called phase
    exact same ▸ fits
  once := by
    rintro c c' key ⟨call, exec, found, outstanding, owner, rfl⟩
      ⟨call', exec', found', outstanding', owner', same⟩
    obtain ⟨_, present, pending⟩ := flights.within c call found outstanding
    cases owner.symm.trans present
    obtain ⟨_, present', pending'⟩ := flights.within c' call' found' outstanding'
    cases owner'.symm.trans present'
    exact flights.serial c c' call call' found found' outstanding outstanding'
      (pending_apart core owner owner' pending pending' same.symm)
  apart := core.store.apart
  live := by
    intro key e bound
    obtain ⟨entry, found, promised⟩ := core.store.live key e bound
    exact ⟨entry, found, promised.key, promised.undisposed⟩
  orphan := by
    intro key e bound
    obtain ⟨entry, found, promised⟩ := core.store.orphaned key e bound
    exact ⟨entry, found, promised.key, promised.undisposed, promised.condemned, promised.held⟩

/-- Under a breaker that runs one call at a time every run is single flight throughout. -/
theorem singleFlight_throughout (options : PoolOptions) (actions : List (Action κ τ))
    (polite : Runs.Guarded (step options) OneCallAtATime (init options) actions) :
    Runs.Throughout (step options) SingleFlight (init options) actions := by
  -- The invariant of every run and the order of the flights are carried along together.
  have kept := polite.throughout (fun s => Core s ∧ Flights s.execs s.factoryCalls)
    (fun s action next ⟨core, flights⟩ met stepped =>
      ⟨core_step core stepped, ((step_effect stepped).flow core.store).flights met flights⟩)
    ⟨core_init options, by constructor <;> simp [init]⟩
  exact kept.mono fun s ⟨core, flights⟩ => singleFlight_of_core core flights

/-- A run in which a key is created, evicted for another key, and created again. -/
theorem singleFlight_throughout_recreation :
    let options : PoolOptions := { max := 1 }
    let create (a : Nat) : List (Action Nat Nat) :=
      [.obtain a, .create a .threw, .factoryCalled a, .factorySettled a (some a),
        .execSettled a (some a), .deliver a, .releaseHandle a]
    Runs.Throughout (step options) SingleFlight (init options)
      ([.acquire 7] ++ create 0 ++ [.acquire 8] ++ create 1 ++ [.acquire 7] ++ create 2) :=
  -- The breaker makes its calls one at a time.
  singleFlight_throughout _ _ (by decide)

end RefPool.State
