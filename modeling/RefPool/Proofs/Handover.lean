import RefPool.Proofs.Flow
import RefPool.Proofs.Ledger
import Mathlib.Data.List.Count

/-! A breaker that settles as its factory hands over every resource the factory resolved with. -/

namespace RefPool

variable {κ τ : Type}

/-- Whether an exec has not settled. -/
def awaited (execs : List (Exec κ τ)) (x : ExecId) : Bool :=
  (execs[x]?).any fun exec => exec.outcome.isPending

/-- The resources that the factory calls of the chosen execs resolved with. -/
def resolvedIn (calls : List (FactoryCall τ)) (chosen : ExecId → Bool) : List τ :=
  (calls.filter fun call => chosen call.exec).filterMap fun call => call.outcome.value?

/-- Settling a factory call of a chosen exec adds what it resolved with. -/
theorem resolvedIn_land {calls : List (FactoryCall τ)} {c : FactoryId} {call : FactoryCall τ}
    (chosen : ExecId → Bool) (found : calls[c]? = some call) (outstanding : call.outcome = .pending)
    (inside : chosen call.exec = true) (answer : Option τ) :
    (resolvedIn (calls.modify c fun call => { call with outcome := .ofAnswer answer }) chosen).Perm
      (answer.toList ++ resolvedIn calls chosen) := by
  -- Only the call that settles resolves with something else than before.
  have moved := Arena.filterMap_modify_perm
    (fun call : FactoryCall τ => { call with outcome := .ofAnswer answer })
    (fun call => if chosen call.exec then call.outcome.value? else none) found
  have nothing : call.outcome.value? = none := by rw [outstanding]; rfl
  simp only [nothing, inside, value?_ofAnswer, if_true, Option.toList_none,
    List.nil_append] at moved
  unfold resolvedIn
  rw [List.filterMap_filter, List.filterMap_filter]
  exact moved

/-- What the chosen execs resolved with splits by any of them. -/
theorem resolvedIn_split (calls : List (FactoryCall τ)) {chosen : ExecId → Bool} {x : ExecId}
    (inside : chosen x = true) :
    (resolvedIn calls chosen).Perm ((resolvedIn calls fun y => y = x) ++
      resolvedIn calls fun y => chosen y && decide (y ≠ x)) := by
  -- The chosen calls are those of the exec and the others, which a filter tells apart.
  have parts := (List.filter_append_perm (fun call : FactoryCall τ => decide (call.exec = x))
    (calls.filter fun call => chosen call.exec)).symm.filterMap fun call => call.outcome.value?
  rw [List.filterMap_append, List.filter_filter, List.filter_filter] at parts
  have own : (calls.filter fun call => decide (call.exec = x) && chosen call.exec) =
      calls.filter fun call => decide (call.exec = x) :=
    List.filter_congr fun call _ => by
      by_cases same : call.exec = x <;> simp [same, inside]
  have others : (calls.filter fun call => !decide (call.exec = x) && chosen call.exec) =
      calls.filter fun call => chosen call.exec && decide (call.exec ≠ x) :=
    List.filter_congr fun call _ => by simp [Bool.and_comm]
  rw [own, others] at parts
  exact parts

/-- What the factory made was handed over, or waits for its exec to settle. -/
structure Handover (execs : List (Exec κ τ)) (calls : List (FactoryCall τ)) : Prop where
  known : ∀ call ∈ calls, call.exec < execs.length
  within : ∀ call ∈ calls, call.outcome = .pending → awaited execs call.exec = true
  passed : (calls.filterMap fun call => call.outcome.value?).Perm
    ((handedOver execs).map Prod.fst ++ resolvedIn calls (awaited execs))

namespace Handover

variable {execs : List (Exec κ τ)} {calls : List (FactoryCall τ)} {x : ExecId} {c : FactoryId}

/-- Nothing was made yet. -/
theorem empty : Handover ([] : List (Exec κ τ)) [] := by
  -- Neither side has a resource.
  constructor <;> simp [handedOver, resolvedIn]

/-- A new exec has made nothing. -/
theorem start (handover : Handover execs calls) (a : AcquireId) (key : κ) :
    Handover (execs ++ [⟨a, key, .pending⟩]) calls := by
  -- No factory call is of an exec that does not exist yet.
  have same (call : FactoryCall τ) (inside : call ∈ calls) :
      awaited (execs ++ [⟨a, key, .pending⟩]) call.exec = awaited execs call.exec := by
    have less := handover.known call inside
    rw [awaited, awaited, Arena.getElem?_push, if_neg (Nat.ne_of_lt less)]
  refine ⟨fun call inside => ?_, fun call inside outstanding => ?_, ?_⟩
  · rw [List.length_append]
    exact Nat.lt_add_right _ (handover.known call inside)
  · rw [same call inside]
    exact handover.within call inside outstanding
  · have resolved : resolvedIn calls (awaited (execs ++ [⟨a, key, .pending⟩])) =
        resolvedIn calls (awaited execs) := by
      unfold resolvedIn
      rw [List.filter_congr same]
    have handed : handedOver (execs ++ [⟨a, key, .pending⟩]) = handedOver execs := by
      simp [handedOver, Outcome.value?]
    rw [resolved, handed]
    exact handover.passed

/-- A new factory call of a pending exec has made nothing. -/
theorem call (handover : Handover execs calls) (pending : awaited execs x = true) :
    Handover execs (calls ++ [⟨x, .pending⟩]) := by
  -- The new call yields nothing until it settles.
  have made : x < execs.length := by
    obtain ⟨exec, found, -⟩ := Option.any_eq_true _ _ |>.mp pending
    exact (List.getElem?_eq_some_iff.mp found).1
  refine ⟨fun call inside => ?_, fun call inside outstanding => ?_, ?_⟩
  · rcases List.mem_append.mp inside with before | new
    · exact handover.known call before
    · rw [List.mem_singleton.mp new]
      exact made
  · rcases List.mem_append.mp inside with before | new
    · exact handover.within call before outstanding
    · rw [List.mem_singleton.mp new]
      exact pending
  · have nothing : resolvedIn (calls ++ [⟨x, .pending⟩]) (awaited execs) =
        resolvedIn calls (awaited execs) := by
      simp [resolvedIn, List.filter_append, pending, Outcome.value?]
    rw [nothing, List.filterMap_append]
    simpa [Outcome.value?] using handover.passed

/-- What a factory call makes waits for its exec. -/
theorem land (handover : Handover execs calls) {call : FactoryCall τ}
    (found : calls[c]? = some call) (outstanding : call.outcome = .pending) (answer : Option τ) :
    Handover execs (calls.modify c fun call => { call with outcome := .ofAnswer answer }) := by
  have pending := handover.within call (List.mem_of_getElem? found) outstanding
  -- A call that is pending afterwards was pending before, and of the same exec.
  have back (other : FactoryCall τ)
      (inside : other ∈ calls.modify c fun call => { call with outcome := .ofAnswer answer }) :
      ∃ before ∈ calls, before.exec = other.exec ∧
        (other.outcome = .pending → before.outcome = .pending) := by
    obtain ⟨i, read⟩ := List.mem_iff_getElem?.mp inside
    rcases Arena.getElem?_modify_cases read with ⟨-, old, before, rfl⟩ | ⟨-, before⟩
    · refine ⟨old, List.mem_of_getElem? before, rfl, fun pending => ?_⟩
      cases answer <;> simp [Outcome.ofAnswer] at pending
    · exact ⟨other, List.mem_of_getElem? before, rfl, id⟩
  refine ⟨fun other inside => ?_, fun other inside unsettled => ?_, ?_⟩
  · obtain ⟨before, present, same, -⟩ := back other inside
    exact same ▸ handover.known before present
  · obtain ⟨before, present, same, still⟩ := back other inside
    exact same ▸ handover.within before present (still unsettled)
  · -- Both sides gain what the call resolved with.
    have all (calls : List (FactoryCall τ)) :
        (calls.filterMap fun call => call.outcome.value?) = resolvedIn calls fun _ => true := by
      simp [resolvedIn]
    have made := resolvedIn_land (fun _ => true) found outstanding rfl answer
    have waits := resolvedIn_land (awaited execs) found outstanding pending answer
    rw [all]
    refine made.trans (((all calls ▸ handover.passed).append_left answer.toList).trans ?_)
    refine (List.perm_append_comm_assoc _ _ _).trans (waits.symm.append_left _)

/-- What waits for an exec is handed over when the exec settles as its factory calls did. -/
theorem finish (handover : Handover execs calls) {exec : Exec κ τ} {answer : Option τ}
    (found : execs[x]? = some exec) (outstanding : exec.outcome = .pending)
    (landed : ∀ call ∈ calls, call.exec = x → call.outcome.isPending = false)
    (same : resolvedIn calls (fun y => y = x) = answer.toList) :
    Handover (execs.modify x fun exec => { exec with outcome := .ofAnswer answer }) calls := by
  -- The exec that settles is the only one awaited no longer.
  have settled (y : ExecId) :
      awaited (execs.modify x fun exec => { exec with outcome := .ofAnswer answer }) y =
        (awaited execs y && decide (y ≠ x)) := by
    unfold awaited
    by_cases here : x = y
    · subst here
      cases answer <;> simp [found, Outcome.ofAnswer, Outcome.isPending]
    · simp [here, Ne.symm here]
  refine ⟨fun call inside => ?_, fun call inside unsettled => ?_, ?_⟩
  · rw [List.length_modify]
    exact handover.known call inside
  · rw [settled, handover.within call inside unsettled, Bool.true_and, decide_eq_true_eq]
    intro own
    have ended := landed call inside own
    simp [unsettled, Outcome.isPending] at ended
  · have pending : awaited execs x = true := by
      simp [awaited, found, outstanding, Outcome.isPending]
    -- What the calls of the exec resolved with moves from the waiting to the handed over.
    have handed := (State.handedOver_pending found outstanding answer).map Prod.fst
    have split := resolvedIn_split calls pending
    rw [same] at split
    have waits : resolvedIn calls
        (awaited (execs.modify x fun exec => { exec with outcome := .ofAnswer answer })) =
        resolvedIn calls fun y => awaited execs y && decide (y ≠ x) := by
      unfold resolvedIn
      simp only [settled]
    have values : ((answer.map fun value => (value, exec.key)).toList.map Prod.fst) =
        answer.toList := by
      cases answer <;> rfl
    rw [List.map_append, values] at handed
    rw [waits]
    refine handover.passed.trans ((split.append_left _).trans ?_)
    exact (List.perm_append_comm_assoc _ _ _).trans
      ((List.append_assoc .. ▸ handed.symm.append_right _))

/-- Once every exec has settled, what the factory made is what was handed over. -/
theorem settled (handover : Handover execs calls)
    (all : ∀ exec ∈ execs, exec.outcome.isPending = false) :
    (calls.filterMap fun call => call.outcome.value?).Perm ((handedOver execs).map Prod.fst) := by
  -- Nothing waits for an exec any more.
  have nothing : resolvedIn calls (awaited execs) = [] := by
    have none (x : ExecId) : awaited execs x = false := by
      rw [awaited, Option.any_eq_false]
      exact fun exec found => by simp [all exec (List.mem_of_getElem? found)]
    simp [resolvedIn, none]
  simpa [nothing] using handover.passed

end Handover

namespace State

variable [DecidableEq κ] {options : PoolOptions} {s next : State κ τ}

/--
The breaker settles `exec` only after, and as, the factory that it wraps.

It calls the factory within `exec`, and settles `exec` when every call has settled: with what the
factory resolved with, or with a rejection when that is nothing.
-/
def SettlesAsFactory (s : State κ τ) : Action κ τ → Prop
  | .factoryCalled x => awaited s.execs x = true
  | .execSettled x answer =>
      (∀ call ∈ s.factoryCalls, call.exec = x → call.outcome.isPending = false) ∧
        resolvedIn s.factoryCalls (fun y => y = x) = answer.toList
  | _ => True

/-- Whether the breaker settles as its factory can be checked. -/
instance [DecidableEq τ] (s : State κ τ) (action : Action κ τ) :
    Decidable (s.SettlesAsFactory action) := by
  induction action using Action.casesOn <;> unfold SettlesAsFactory <;> infer_instance

omit [DecidableEq κ] in
/-- A breaker that settles as its factory loses nothing. -/
theorem Flow.handover {action : Action κ τ} (flow : Flow s next action)
    (polite : s.SettlesAsFactory action) (handover : Handover s.execs s.factoryCalls) :
    Handover next.execs next.factoryCalls := by
  -- Each way the execs and the calls can move has its law.
  cases flow with
  | still _ execs calls =>
    rw [execs, calls]
    exact handover
  | started a answer key execs calls =>
    rw [execs, calls]
    exact handover.start a key
  | called x exec found execs calls =>
    rw [execs, calls]
    exact handover.call polite
  | landed c answer call found outstanding execs calls =>
    rw [execs, calls]
    exact handover.land found outstanding answer
  | finished x answer exec found outstanding execs calls =>
    rw [execs, calls]
    exact handover.finish found outstanding polite.1 polite.2

end State

end RefPool
