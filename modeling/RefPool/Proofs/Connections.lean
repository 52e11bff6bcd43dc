import RefPool.Proofs.Breaker
import RefPool.Proofs.Conservation
import RefPool.Proofs.Handover
import RefPool.Proofs.Reservations
import RefPool.Proofs.Standing
import RefPool.Proofs.Undrained

/-! The connections open at a time: creations in flight, and resources not disposed of yet. -/

namespace RefPool

variable {κ τ : Type}

/-- Whether a factory call of a pending exec goes on, or has made what the exec will yield. -/
def FactoryCall.active (execs : List (Exec κ τ)) (call : FactoryCall τ) : Bool :=
  awaited execs call.exec && (call.outcome.isPending || call.outcome.value?.isSome)

/-- Every exec has one active factory call at most. -/
def Sole (execs : List (Exec κ τ)) (calls : List (FactoryCall τ)) : Prop :=
  ∀ (i j : Nat) left right, calls[i]? = some left → calls[j]? = some right →
    left.active execs = true → right.active execs = true → left.exec = right.exec → i = j

namespace Sole

variable {execs later : List (Exec κ τ)} {calls next : List (FactoryCall τ)} {x : ExecId}

/-- Where no call becomes active, every exec keeps its one active call. -/
theorem mono (sole : Sole execs calls)
    (back : ∀ (i : Nat) after, next[i]? = some after → after.active later = true →
      ∃ before, calls[i]? = some before ∧ before.active execs = true ∧
        before.exec = after.exec) : Sole later next := by
  -- Two active calls of one exec were active before.
  intro i j left right read read' active active' same
  obtain ⟨left, before, was, own⟩ := back i left read active
  obtain ⟨right, before', was', own'⟩ := back j right read' active'
  exact sole i j left right before before' was was' (own.trans (same.trans own'.symm))

/-- A further call of an exec that has no active one. -/
theorem call (sole : Sole execs calls)
    (free : ∀ call ∈ calls, call.exec = x → call.active execs = false) :
    Sole execs (calls ++ [⟨x, .pending⟩]) := by
  -- The new call clashes with no active one of its exec.
  have clash {i : Nat} {old : FactoryCall τ} (read : calls[i]? = some old)
      (active : old.active execs = true) (same : old.exec = x) : False := by
    simp [free old (List.mem_of_getElem? read) same] at active
  intro i j left right read read' active active' same
  rcases Arena.getElem?_push_cases read with ⟨rfl, rfl⟩ | before
  · rcases Arena.getElem?_push_cases read' with ⟨rfl, rfl⟩ | before'
    · rfl
    · exact (clash before' active' same.symm).elim
  · rcases Arena.getElem?_push_cases read' with ⟨rfl, rfl⟩ | before'
    · exact (clash before active same).elim
    · exact sole i j left right before before' active active' same

end Sole

/-- The factory calls that are active go on, or have made what waits for its exec. -/
theorem countP_active {execs : List (Exec κ τ)} {calls : List (FactoryCall τ)}
    (within : ∀ call ∈ calls, call.outcome = .pending → awaited execs call.exec = true) :
    calls.countP (FactoryCall.active execs) =
      calls.countP (fun call => call.outcome.isPending) +
        (resolvedIn calls (awaited execs)).length := by
  -- A call in flight is active, and one that has made a resource is while its exec is awaited.
  induction calls with
  | nil => rfl
  | cons head tail ih =>
    have rest := ih fun call inside => within call (List.mem_cons_of_mem _ inside)
    have own := within head List.mem_cons_self
    unfold resolvedIn at rest ⊢
    rw [List.countP_cons, List.countP_cons, rest, List.filter_cons]
    cases outcome : head.outcome with
    | pending => simp [FactoryCall.active, own outcome, outcome, Outcome.isPending,
        Outcome.value?]; omega
    | fulfilled value =>
      cases waits : awaited execs head.exec <;>
        simp [FactoryCall.active, waits, outcome, Outcome.isPending, Outcome.value?]
      omega
    | rejected =>
      cases waits : awaited execs head.exec <;>
        simp [FactoryCall.active, waits, outcome, Outcome.isPending, Outcome.value?]

namespace State

/-- The resources whose `options.dispose` call has settled. -/
def gone (s : State κ τ) : List τ := (s.heap.filter Entry.disposed).map Entry.resource

/-- The `options.dispose` calls of entries in progress. -/
def disposals (s : State κ τ) : Nat :=
  s.heap.countP fun entry => entry.disposing && !entry.disposed

/--
The connections that are open.

They are the factory calls in flight, and the resources that the factory made and that are not
gone. A pool that was never drained makes no resource too late, so that all disposals are of
entries.
-/
def connections [DecidableEq τ] (s : State κ τ) : Nat :=
  s.factoryCalls.countP (fun call => call.outcome.isPending) + (s.made.diff s.gone).length

/-- The bound is one on the connections. -/
def Bounded [DecidableEq τ] (options : PoolOptions) (s : State κ τ) : Prop :=
  s.connections ≤ options.max

/-- Whether the bound is one on the connections can be checked. -/
instance [DecidableEq τ] (options : PoolOptions) (s : State κ τ) :
    Decidable (s.Bounded options) := by
  unfold Bounded
  infer_instance

/--
The factory is called where there is room for one more connection.

No other call of the exec is active, and the slots in use still are within the bound when the
disposals in progress count as slots.
-/
def OpensInRoom (options : PoolOptions) (s : State κ τ) : Action κ τ → Prop
  | .factoryCalled x =>
      (∀ call ∈ s.factoryCalls, call.exec = x → call.active s.execs = false) ∧
        s.entries.size + s.reserved + s.disposals ≤ options.max
  | _ => True

/-- Whether there is room where the factory is called can be checked. -/
instance (options : PoolOptions) (s : State κ τ) (action : Action κ τ) :
    Decidable (s.OpensInRoom options action) := by
  induction action using Action.casesOn <;> unfold OpensInRoom <;> infer_instance

/-- What a run without drains keeps if every exec settles as its one active factory call. -/
structure Watched [DecidableEq κ] (s : State κ τ) : Prop where
  core : Core s
  opened : s.closed = false
  undrained : Undrained s.heap s.acquires
  exact : s.toStore.Exact
  booked : s.Booked
  handover : Handover s.execs s.factoryCalls
  sole : Sole s.execs s.factoryCalls
  /-- Every resource that was handed over became an entry. -/
  placed : (s.heap.map Entry.resource).Perm s.yielded

variable [DecidableEq κ] {options : PoolOptions} {s next : State κ τ}

/-- Only a drain closes the pool. -/
theorem Effect.opened {action : Action κ τ} (wf : s.toStore.WellFormed)
    (effect : Effect options s action next) (open_ : action ≠ .drain ∧ action ≠ .stop)
    (opened : s.closed = false) : next.closed = false := by
  -- No other step writes the flag, but `start`, which opens the pool.
  have slot {s next : State κ τ} {a : AcquireId} (effect : SlotEffect options s a next)
      (opened : s.closed = false) : next.closed = false := by
    cases effect <;> exact opened
  have miss {a : AcquireId} {key : κ} (effect : MissEffect options s a key next) :
      next.closed = false := by
    cases effect with
    | resurrected | refused => exact opened
    | slot _ _ _ effect => exact slot effect opened
  have release {s next : State κ τ} {e : EntryId} (effect : ReleaseEffect s e next)
      (opened : s.closed = false) : next.closed = false := by
    cases effect <;> exact opened
  cases effect with
  | drain => exact absurd rfl open_.1
  | stop => exact absurd rfl open_.2
  | start => rfl
  | released h handle next found holding effect => exact release effect opened
  | releasedKey key e next bound effect => exact release effect opened
  | sweep =>
    exact (sweep_rule options (P := fun next => next.closed = false) wf
      (fun _ _ _ _ opened _ _ _ => opened) (fun _ _ => id) opened).2
  | missed a acquire after next called phase turn absent effect => exact miss effect
  | discarded a acquire live next called phase effect => exact miss effect
  | resumed a acquire w waiter next called phase found woken effect => exact slot effect opened
  | shared | queued | releasedAgain | releasedNone | gcKeyState | emitStats | timeout | clock
  | validating | returned | abandoned | breakerless | creating | delivered | failed | drained
  | unvalidated | passed | refuted | factoryCalled | factorySettled | execRejected | execLate
  | inserted | disposeSettled | lateDisposeSettled | breakerChanged => exact opened

omit [DecidableEq κ] in
/-- Every exec keeps its one active factory call. -/
theorem Flow.sole {action : Action κ τ} (flow : Flow s next action)
    (handover : Handover s.execs s.factoryCalls) (room : s.OpensInRoom options action)
    (sole : Sole s.execs s.factoryCalls) : Sole next.execs next.factoryCalls := by
  cases flow with
  | still _ execs calls =>
    rw [execs, calls]
    exact sole
  | started a answer key execs calls =>
    rw [execs, calls]
    -- An exec that starts is none that the calls so far were made for.
    refine sole.mono fun i call read active => ⟨call, read, ?_, rfl⟩
    have known := handover.known call (List.mem_of_getElem? read)
    simpa only [FactoryCall.active, awaited, Arena.getElem?_push, if_neg (Nat.ne_of_lt known)]
      using active
  -- The guard of the step keeps the call apart from the others.
  | called x exec found execs calls =>
    rw [execs, calls]
    exact sole.call room.1
  -- A call that settles was active before.
  | landed c answer call found outstanding execs calls =>
    rw [execs, calls]
    refine sole.mono fun i after read active => ?_
    rcases Arena.getElem?_modify_cases read with ⟨rfl, old, before, rfl⟩ | ⟨-, before⟩
    · cases found.symm.trans before
      simp only [FactoryCall.active, Bool.and_eq_true] at active
      exact ⟨call, before, by simp [FactoryCall.active, active.1, outstanding, Outcome.isPending],
        rfl⟩
    · exact ⟨after, before, active, rfl⟩
  | finished x answer exec found outstanding execs calls =>
    rw [execs, calls]
    -- The calls of an exec that settles are active no longer.
    refine sole.mono fun i call read active => ⟨call, read, ?_, rfl⟩
    simp only [FactoryCall.active, Bool.and_eq_true] at active ⊢
    refine ⟨?_, active.2⟩
    obtain ⟨after, present, pending⟩ := Option.any_eq_true _ _ |>.mp active.1
    rcases Arena.getElem?_modify_cases present with ⟨same, old, before, rfl⟩ | ⟨-, before⟩
    · cases answer <;> simp [Outcome.ofAnswer, Outcome.isPending] at pending
    · simp [awaited, before, pending]

omit [DecidableEq κ] in
/-- Every resource handed over in an open pool becomes an entry. -/
theorem placed_step {action : Action κ τ} (opened : s.closed = false)
    (flow : Flow s next action) (standing : StandingEffect s next action)
    (placed : (s.heap.map Entry.resource).Perm s.yielded) :
    (next.heap.map Entry.resource).Perm next.yielded := by
  -- Entries join in the steps in which their execs hand over the resource.
  have resources (heap : List (Entry κ τ)) : heap.map Entry.resource =
      (heap.map Entry.standing).map fun standing => standing.1.1 := by
    rw [List.map_map]
    rfl
  have yielded (same : next.execs = s.execs) : next.yielded = s.yielded := by
    rw [State.yielded, State.yielded, same]
  cases standing with
  | same _ unended late heap =>
    rw [resources, heap, ← resources]
    refine placed.trans ?_
    cases flow with
    | still _ execs | called x exec found execs | landed c answer call found outstanding execs =>
      rw [yielded execs]
    | started a answer key execs =>
      rw [State.yielded, State.yielded, execs]
      simp [handedOver, Outcome.value?]
    | finished x answer exec found outstanding execs =>
      cases answer with
      | none =>
        have handed := (handedOver_pending found outstanding none).map Prod.fst
        rw [State.yielded, State.yielded, execs]
        exact handed.symm
      | some resource => simp [late x resource rfl] at opened
  | inserted x exec resource found outstanding execs heap =>
    have handed := (handedOver_pending found outstanding (some resource)).map Prod.fst
    rw [resources, heap, List.map_append, ← resources, State.yielded, execs]
    exact (List.perm_append_singleton _ _).trans ((placed.cons resource).trans handed.symm)
  -- The end of a disposal keeps the entry in the heap.
  | ended e entry _ _ _ heap =>
    have kept : next.heap.map Entry.resource = s.heap.map Entry.resource := by
      rw [heap]
      exact Arena.map_modify_of_eq Entry.resource fun _ _ => rfl
    rw [kept]
    cases flow with
    | still _ execs =>
      rw [yielded execs]
      exact placed

/-- What a run without drains keeps survives a step that opens a connection in its room. -/
theorem watched_step {action : Action κ τ} (bounded : 0 < options.max) (watched : Watched s)
    (undrained : action ≠ .drain ∧ action ≠ .stop) (polite : s.SettlesAsFactory action)
    (room : s.OpensInRoom options action) (stepped : s.step options action = some next) :
    Watched next := by
  -- Each part of the invariant has a step lemma of its own.
  have effect := step_effect stepped
  have wf := watched.core.store
  have flow := effect.flow wf
  have standing := effect.standing wf
  exact
    { core := core_step watched.core stepped
      opened := effect.opened wf undrained watched.opened
      undrained := effect.undrained watched.core watched.undrained undrained
      exact := effect.exact watched.core (noRevival_of_undrained watched.undrained action)
        watched.exact
      booked := effect.booked watched.core bounded watched.booked
      handover := flow.handover polite watched.handover
      sole := flow.sole watched.handover room watched.sole
      placed := placed_step watched.opened flow standing watched.placed }

omit [DecidableEq κ] in
/-- What is gone was made, so that the connections are the calls and what is not gone. -/
theorem connections_add [DecidableEq τ] (handover : Handover s.execs s.factoryCalls)
    (placed : (s.heap.map Entry.resource).Perm s.yielded) :
    s.connections + s.heap.countP Entry.disposed =
      s.factoryCalls.countP (fun call => call.outcome.isPending) + s.made.length := by
  -- What is gone was handed over, and what was handed over was made.
  have inside : s.gone.Subperm s.made := by
    have disposed : s.gone.Sublist (s.heap.map Entry.resource) :=
      List.filter_sublist.map Entry.resource
    have handed : s.yielded.Subperm s.made :=
      (List.sublist_append_left _ _).subperm.trans handover.passed.symm.subperm
    exact disposed.subperm.trans (placed.subperm.trans handed)
  have split := (List.subperm_append_diff_self_of_count_le
    fun resource _ => inside.count_le resource).length_eq
  have gone : s.gone.length = s.heap.countP Entry.disposed := by
    rw [gone, List.length_map, List.countP_eq_length_filter]
  rw [List.length_append, gone] at split
  unfold connections
  omega

omit [DecidableEq κ] in
/-- The connections are the active factory calls and the entries that are not disposed. -/
theorem connections_eq [DecidableEq τ] (handover : Handover s.execs s.factoryCalls)
    (placed : (s.heap.map Entry.resource).Perm s.yielded) :
    s.connections + s.heap.countP Entry.disposed =
      s.factoryCalls.countP (FactoryCall.active s.execs) + s.heap.length := by
  -- What the factory made was handed over, or waits for its exec.
  rw [connections_add handover placed, countP_active handover.within]
  have made := handover.passed.length_eq
  have entries := placed.length_eq
  rw [List.length_append] at made
  rw [List.length_map] at entries
  unfold State.made yielded at *
  omega

/-- The entries not disposed of are the live ones and those whose disposal is in progress. -/
theorem Watched.length_heap (watched : Watched s) :
    s.heap.length = s.heap.countP Entry.disposed + s.entries.size + s.disposals := by
  -- Without orphans an entry is live, being disposed of, or disposed of.
  have unorphaned := size_orphans_of_undrained watched.core.store watched.undrained
  have sizes := size_bound watched.core.store watched.exact
  have all := State.length_heap watched.core.store
  unfold disposals
  omega

/-- Every pending exec belongs to a creation of its own, which has a reservation. -/
theorem pending_le_reservations (core : Core s) :
    (s.execs.countP fun exec => exec.outcome.isPending) ≤ reservations s.acquires := by
  have awaited (x : Nat) (exec : Exec κ τ) (found : s.execs[x]? = some exec)
      (pending : exec.outcome.isPending = true) : ∃ acquire,
        s.acquires[exec.acquire]? = some acquire ∧ acquire.phase = .creating x := by
    have outstanding : exec.outcome = .pending := by
      cases outcome : exec.outcome <;> simp [outcome, Outcome.isPending] at pending ⊢
    obtain ⟨acquire, called, -, phase⟩ := core.execs.awaited x exec found outstanding
    exact ⟨acquire, called, phase⟩
  refine Arena.countP_le_countP Exec.acquire (fun x exec found pending => ?_) ?_
  · obtain ⟨acquire, called, phase⟩ := awaited x exec found pending
    exact ⟨acquire, called, by rw [phase]; rfl⟩
  · -- An acquire awaits one exec.
    intro x y left right found found' pending pending' same
    obtain ⟨acquire, called, phase⟩ := awaited x left found pending
    obtain ⟨other, called', phase'⟩ := awaited y right found' pending'
    rw [same] at called
    cases called.symm.trans called'
    exact Phase.creating.inj (phase.symm.trans phase')

/-- The active factory calls belong to different creations, each of which has a reservation. -/
theorem Watched.active_le (watched : Watched s) :
    (s.factoryCalls.countP (FactoryCall.active s.execs) : Int) ≤ s.reserved := by
  -- Active calls belong to pending execs, and these to calls that hold a reservation.
  have execs : s.factoryCalls.countP (FactoryCall.active s.execs) ≤
      s.execs.countP fun exec => exec.outcome.isPending := by
    refine Arena.countP_le_countP FactoryCall.exec (fun i call read active => ?_) watched.sole
    rw [FactoryCall.active, Bool.and_eq_true] at active
    exact Option.any_eq_true _ _ |>.mp active.1
  have creating := pending_le_reservations watched.core
  rw [watched.booked]
  exact_mod_cast Nat.le_trans execs creating

/-- Only a call of the factory opens a connection. -/
theorem connections_le [DecidableEq τ] {action : Action κ τ} (watched : Watched s)
    (after : Watched next) (flow : Flow s next action) (standing : StandingEffect s next action)
    (quiet : ∀ x, action ≠ .factoryCalled x) : next.connections ≤ s.connections := by
  -- Disposals only end, and resources are made by calls that were in flight.
  have before := connections_add watched.handover watched.placed
  have later := connections_add after.handover after.placed
  have disposed : s.heap.countP Entry.disposed ≤ next.heap.countP Entry.disposed := by
    have view (heap : List (Entry κ τ)) : heap.countP Entry.disposed =
        (heap.map Entry.standing).countP fun standing => standing.2 := by
      rw [List.countP_map]
      rfl
    cases standing with
    | same _ _ _ heap =>
      exact Nat.le_of_eq (by rw [view, view, heap])
    | inserted x exec resource _ _ _ heap =>
      rw [view, view, heap, List.countP_append]
      exact Nat.le_add_right _ _
    | ended e entry found _ unfinished heap =>
      have counted := Arena.countP_modify (fun entry : Entry κ τ =>
        { entry with disposed := true, disposeWaiters := [] }) Entry.disposed found
      rw [heap]
      simp only [unfinished, Bool.false_eq_true, if_false, if_true] at counted
      omega
  have calls : next.factoryCalls.countP (fun call => call.outcome.isPending) +
      next.made.length ≤
        s.factoryCalls.countP (fun call => call.outcome.isPending) + s.made.length := by
    unfold State.made
    rw [List.length_filterMap_eq_countP, List.length_filterMap_eq_countP]
    cases flow with
    | still _ _ calls | started _ _ _ _ calls | finished _ _ _ _ _ _ calls =>
      exact Nat.le_of_eq (by rw [calls])
    | called x => exact absurd rfl (quiet x)
    | landed c answer call found outstanding _ calls =>
      -- The call that settles is in flight no longer, and made one resource at most.
      have pending := Arena.countP_modify (fun call : FactoryCall τ =>
        { call with outcome := .ofAnswer answer }) (fun call => call.outcome.isPending) found
      have made := Arena.countP_modify (fun call : FactoryCall τ =>
        { call with outcome := .ofAnswer answer }) (fun call => call.outcome.value?.isSome) found
      rw [calls]
      cases answer <;>
        simp [outstanding, Outcome.isPending, Outcome.ofAnswer, Outcome.value?]
          at pending made ⊢ <;>
        omega
  omega

/-- A step that opens a connection in its room keeps the bound. -/
theorem bounded_step [DecidableEq τ] {action : Action κ τ} (watched : Watched s)
    (after : Watched next) (room : s.OpensInRoom options action)
    (stepped : s.step options action = some next) (within : s.Bounded options) :
    next.Bounded options := by
  have effect := step_effect stepped
  have wf := watched.core.store
  unfold Bounded at within ⊢
  by_cases opening : ∃ x, action = .factoryCalled x
  · -- The connections are counted anew: none of them lacks a slot or a disposal in progress.
    obtain ⟨x, rfl⟩ := opening
    have counted := connections_eq after.handover after.placed
    have entries := after.length_heap
    have active := after.active_le
    have room := room.2
    cases effect with
    | factoryCalled =>
      simp only [disposals] at counted entries active room
      omega
  · have quiet : ∀ x, action ≠ .factoryCalled x := fun x same => opening ⟨x, same⟩
    have fewer := connections_le watched after (effect.flow wf) (effect.standing wf) quiet
    omega

/--
The bound is one on the connections in every run without drains in which the factory is called
where there is room, and the breakers settle as the factory.
-/
theorem bounded_throughout [DecidableEq τ] (options : PoolOptions) (bounded : 0 < options.max)
    (actions : List (Action κ τ)) (undrained : ∀ action ∈ actions, action ≠ .drain ∧ action ≠ .stop)
    (met : Runs.Guarded (step options)
      (fun s action => s.SettlesAsFactory action ∧ s.OpensInRoom options action)
      (init options) actions) :
    Runs.Throughout (step options) (Bounded options) (init options) actions := by
  -- Everything that is watched holds of a new pool, which has no connections.
  have guarded := met.both (Runs.guarded_of_forall undrained)
  have kept := guarded.throughout (fun s => Watched s ∧ s.Bounded options)
    (fun s action next ⟨watched, within⟩ ⟨⟨polite, room⟩, undrained⟩ stepped =>
      have after := watched_step bounded watched undrained polite room stepped
      ⟨after, bounded_step watched after room stepped within⟩)
    ⟨⟨core_init options, rfl, undrained_init options, Store.exact_empty, booked_init options,
      .empty, by simp [Sole, init], .refl _⟩,
      by simp [Bounded, connections, init, State.made]; omega⟩
  exact kept.mono fun s ⟨_, within⟩ => within

/-- The factory is called for a key once the disposal of the key it evicted has ended. -/
theorem bounded_throughout_disposed :
    let options : PoolOptions := { max := 1 }
    Runs.Throughout (step options) (Bounded options) (init options)
      ([.acquire 7, .obtain 0, .create 0 .threw, .factoryCalled 0, .factorySettled 0 (some 70),
        .execSettled 0 (some 70), .deliver 0, .releaseHandle 0, .acquire 8, .obtain 1,
        .create 1 .threw, .disposeSettled 0, .factoryCalled 1, .factorySettled 1 (some 80),
        .execSettled 1 (some 80), .deliver 1] : List (Action Nat Nat)) :=
  -- The disposal of 7 settles before the factory is called for 8, as the condition asks.
  bounded_throughout _ (by decide) _ (by simp) (by decide +kernel)

/-- The slot of an evicted key is used while its connection is still being closed. -/
theorem bounded_evicting :
    let options : PoolOptions := { max := 1 }
    let evicting : List (Action Nat Nat) :=
      [.acquire 7, .obtain 0, .create 0 .threw, .factoryCalled 0, .factorySettled 0 (some 70),
        .execSettled 0 (some 70), .deliver 0, .releaseHandle 0, .acquire 8, .obtain 1,
        .create 1 .threw, .factoryCalled 1, .factorySettled 1 (some 80), .execSettled 1 (some 80),
        .deliver 1]
    Runs.Guarded (step options) SettlesAsFactory (init options) evicting ∧
      ¬ Runs.Throughout (step options) (Bounded options) (init options) evicting := by
  -- The connection of 7 is still being closed when the factory is called for 8.
  decide +kernel

end State

end RefPool
