import RefPool.Model.Step
import RefPool.Lib.Arena

/-! When the pool has nothing to run, and what each suspended call then waits for. -/

namespace RefPool.State

variable {κ τ : Type} [DecidableEq κ] {options : PoolOptions} {s : State κ τ} {a : AcquireId}
  {acquire : Acquire κ}

/-- Only calls and drains that were made can have a reaction to run. -/
theorem quiescent_iff : Quiescent options s ↔
    (∀ a < s.acquires.length,
      (s.step options (.obtain a)).isNone ∧ (s.step options (.discarded a)).isNone ∧
      (s.step options (.resume a)).isNone ∧ (s.step options (.create a .threw)).isNone ∧
      (s.step options (.deliver a)).isNone) ∧
    ∀ d < s.drains.length, (s.step options (.drained d)).isNone := by
  simp only [Option.isNone_iff_eq_none]
  constructor
  · intro quiet
    exact ⟨fun a _ => ⟨quiet _ rfl, quiet _ rfl, quiet _ rfl, quiet _ rfl, quiet _ rfl⟩,
      fun d _ => quiet _ rfl⟩
  · rintro ⟨calls, drains⟩ action reaction
    -- A call or a drain that was never made has nothing to run.
    have call (a : AcquireId) : s.acquires[a]? = none ∨ a < s.acquires.length :=
      (Nat.lt_or_ge a s.acquires.length).symm.imp List.getElem?_eq_none id
    cases action with
    | obtain a =>
      rcases call a with none | made
      · simp [step, none]
      · exact (calls a made).1
    | discarded a =>
      rcases call a with none | made
      · simp [step, none]
      · exact (calls a made).2.1
    | resume a =>
      rcases call a with none | made
      · simp [step, none]
      · exact (calls a made).2.2.1
    | create a answer =>
      rcases call a with none | made
      · simp [step, none]
      · -- Whether a slot was granted does not depend on what the breaker factory answers.
        have idle := (calls a made).2.2.2.1
        simp only [step, Option.bind_eq_none_iff] at idle ⊢
        intro acquire called
        have stuck := idle acquire called
        split at stuck
        · cases stuck
        · rfl
    | deliver a =>
      rcases call a with none | made
      · simp [step, none]
      · exact (calls a made).2.2.2.2
    | drained d =>
      rcases Nat.lt_or_ge d s.drains.length with made | none
      · exact drains d made
      · simp [step, List.getElem?_eq_none none]
    | _ => simp [Action.isReaction] at reaction

/-- Whether the pool has nothing to run can be checked. -/
instance (options : PoolOptions) (s : State κ τ) : Decidable (Quiescent options s) :=
  decidable_of_iff _ quiescent_iff.symm

/-- What keeps a call from going on while the pool has nothing to run. -/
def Stuck (s : State κ τ) : Phase → Prop
  | .queued after => s.turnOf after = false
  | .discarding live => s.waitResolved (.disposing live) = false
  | .parked w => ∀ waiter, s.waiters[w]? = some waiter → waiter.promise = .pending
  | .granted | .returned _ | .threw _ => False
  | .validating _ | .creating _ | .closing | .fulfilled _ | .rejected _ => True

/-- While the pool has nothing to run, every call is kept from going on. -/
theorem Quiescent.stuck (quiet : Quiescent options s) (called : s.acquires[a]? = some acquire) :
    s.Stuck acquire.phase := by
  -- A call that could go on would have a reaction to run.
  cases phase : acquire.phase with
  | queued after =>
    have idle := quiet (.obtain a) rfl
    simpa [step, called, phase, Stuck] using idle
  | discarding live =>
    have idle := quiet (.discarded a) rfl
    simpa [step, called, phase, Stuck] using idle
  | parked w =>
    intro waiter found
    have idle := quiet (.resume a) rfl
    simpa [step, called, phase, found] using idle
  | granted =>
    have idle := quiet (.create a .threw) rfl
    simp [step, called, phase] at idle
  | returned e | threw error =>
    have idle := quiet (.deliver a) rfl
    simp [step, called, phase] at idle
  | validating | creating | closing | fulfilled | rejected => trivial

end RefPool.State
