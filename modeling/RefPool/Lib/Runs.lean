import Mathlib.Logic.Basic
import Mathlib.Data.List.Basic

/-! Runs of a labelled transition system given by an executable partial step function. -/

namespace Runs

variable {σ α : Type*}

/-- The state a sequence of labels leads to, when every label is enabled in its turn. -/
def run (step : σ → α → Option σ) : σ → List α → Option σ
  | state, [] => some state
  | state, label :: rest => (step state label).bind fun next => run step next rest

/-- Every state visited along a sequence of labels satisfies the property. -/
def Throughout (step : σ → α → Option σ) (holds : σ → Prop) : σ → List α → Prop
  | state, [] => holds state
  | state, label :: rest =>
    holds state ∧ ∀ next, step state label = some next → Throughout step holds next rest

/-- Every step taken along a sequence of labels meets the guard in the state it starts from. -/
def Guarded (step : σ → α → Option σ) (guard : σ → α → Prop) : σ → List α → Prop
  | _, [] => True
  | state, label :: rest =>
    ∀ next, step state label = some next → guard state label ∧ Guarded step guard next rest

variable {step : σ → α → Option σ} {holds inv : σ → Prop} {guard : σ → α → Prop}

@[simp] theorem run_nil (state : σ) : run step state [] = some state := rfl

/-- A run over a nonempty sequence is a first step followed by a run of the rest. -/
theorem run_cons_eq_some {state last : σ} {label : α} {rest : List α} :
    run step state (label :: rest) = some last ↔
      ∃ next, step state label = some next ∧ run step next rest = some last := by
  -- A run stops at the first step that cannot be taken.
  simp only [run, Option.bind_eq_some_iff]

/-- A run over a concatenation passes through an intermediate state. -/
theorem run_append_eq_some {state last : σ} {first rest : List α} :
    run step state (first ++ rest) = some last ↔
      ∃ middle, run step state first = some middle ∧ run step middle rest = some last := by
  -- The first part is consumed one label at a time.
  induction first generalizing state with
  | nil => simp
  | cons label first ih =>
    rw [List.cons_append, run_cons_eq_some]
    constructor
    · rintro ⟨next, stepped, rest⟩
      obtain ⟨middle, left, right⟩ := ih.mp rest
      exact ⟨middle, run_cons_eq_some.mpr ⟨next, stepped, left⟩, right⟩
    · rintro ⟨middle, left, right⟩
      obtain ⟨next, stepped, rest⟩ := run_cons_eq_some.mp left
      exact ⟨next, stepped, ih.mpr ⟨middle, rest, right⟩⟩

/-- What an observer of the steps writes down along a sequence of labels. -/
def transcript {β : Type*} (step : σ → α → Option σ) (notes : σ → α → σ → List β) :
    σ → List α → List β
  | _, [] => []
  | state, label :: rest =>
    match step state label with
    | none => []
    | some next => notes state label next ++ transcript step notes next rest

/-- An observer who leaves things out writes down the rest of what another one does. -/
theorem transcript_filter {β : Type*} {notes : σ → α → σ → List β} (keep : β → Bool) {state : σ}
    {labels : List α} :
    transcript step (fun s a s' => (notes s a s').filter keep) state labels =
      (transcript step notes state labels).filter keep := by
  -- By induction on the labels; a step that cannot be taken ends both transcripts.
  induction labels generalizing state with
  | nil => rfl
  | cons label rest ih =>
    cases stepped : step state label with
    | none => simp [transcript, stepped]
    | some next => simp [transcript, stepped, ih]

/-- A system in whose view each step is a run of another has a run of the other for each of its. -/
theorem run_transcript {ρ β : Type*} {other : ρ → β → Option ρ} {notes : σ → α → σ → List β}
    (inv : σ → Prop) (view : σ → ρ) {state last : σ} {labels : List α}
    (kept : ∀ s a s', inv s → step s a = some s' → inv s')
    (simulates : ∀ s a s', inv s → step s a = some s' →
      run other (view s) (notes s a s') = some (view s')) (start : inv state)
    (ran : run step state labels = some last) :
    run other (view state) (transcript step notes state labels) = some (view last) := by
  -- The runs of the other system are put one behind the other.
  induction labels generalizing state with
  | nil =>
    rw [run_nil, Option.some.injEq] at ran
    rw [ran, transcript, run_nil]
  | cons label rest ih =>
    obtain ⟨next, stepped, ran⟩ := run_cons_eq_some.mp ran
    simp only [transcript, stepped]
    rw [run_append_eq_some]
    exact ⟨view next, simulates state label next start stepped,
      ih (kept state label next start stepped) ran⟩

/-- What comes in along a run goes out along it, or is in stock where it ends. -/
theorem Guarded.balance {β : Type*} (inv : σ → Prop) (stock : σ → List β)
    {gone come : σ → α → σ → List β} {state last : σ} {labels : List α}
    (kept : ∀ s a s', inv s → guard s a → step s a = some s' → inv s')
    (balanced : ∀ s a s', inv s → guard s a → step s a = some s' →
      (gone s a s' ++ stock s').Perm (stock s ++ come s a s')) (start : inv state)
    (met : Guarded step guard state labels) (ran : run step state labels = some last) :
    (transcript step gone state labels ++ stock last).Perm
      (stock state ++ transcript step come state labels) := by
  -- What the first step adds to the stock is passed on to the rest of the run.
  induction labels generalizing state with
  | nil =>
    rw [run_nil, Option.some.injEq] at ran
    simp [transcript, ran]
  | cons label rest ih =>
    obtain ⟨next, stepped, ran⟩ := run_cons_eq_some.mp ran
    obtain ⟨here, later⟩ := met next stepped
    have ahead := ih (kept state label next start here stepped) later ran
    simp only [transcript, stepped, List.append_assoc]
    refine (ahead.append_left _).trans ?_
    rw [← List.append_assoc, ← List.append_assoc]
    exact (balanced state label next start here stepped).append_right _

/-- A part of the state that each step folds its notes into holds the fold over the whole run. -/
theorem foldl_transcript {ρ β : Type*} (view : σ → ρ) (fold : ρ → β → ρ)
    {notes : σ → α → σ → List β} {state last : σ} {labels : List α}
    (folds : ∀ s a s', step s a = some s' → view s' = (notes s a s').foldl fold (view s))
    (ran : run step state labels = some last) :
    view last = (transcript step notes state labels).foldl fold (view state) := by
  -- The folds of the steps are put one behind the other.
  induction labels generalizing state with
  | nil =>
    rw [run_nil, Option.some.injEq] at ran
    rw [transcript, List.foldl_nil, ran]
  | cons label rest ih =>
    obtain ⟨next, stepped, ran⟩ := run_cons_eq_some.mp ran
    simp only [transcript, stepped, List.foldl_append]
    rw [ih ran, folds state label next stepped]

/-- A property of every visited state holds in particular where the run ends. -/
theorem Throughout.of_run {state last : σ} {labels : List α}
    (all : Throughout step holds state labels) (ran : run step state labels = some last) :
    holds last := by
  -- The run is followed to its end, where the property still holds.
  induction labels generalizing state with
  | nil =>
    simp only [run_nil, Option.some.injEq] at ran
    exact ran ▸ all
  | cons label rest ih =>
    obtain ⟨next, stepped, ran⟩ := run_cons_eq_some.mp ran
    exact ih (all.2 next stepped) ran

/-- The induction rule: what holds at the start and survives guarded steps holds throughout. -/
theorem Guarded.throughout (inv : σ → Prop) {state : σ} {labels : List α}
    (kept : ∀ s a s', inv s → guard s a → step s a = some s' → inv s')
    (start : inv state) (guarded : Guarded step guard state labels) :
    Throughout step inv state labels := by
  -- Each step meets the guard, so the invariant is carried to the next state.
  induction labels generalizing state with
  | nil => exact start
  | cons label rest ih =>
    refine ⟨start, fun next stepped => ?_⟩
    obtain ⟨met, later⟩ := guarded next stepped
    exact ih (kept state label next start met stepped) later

/-- What holds at the start and survives every step holds throughout every run. -/
theorem throughout_of_invariant (inv : σ → Prop) {state : σ}
    (kept : ∀ s a s', inv s → step s a = some s' → inv s') (start : inv state)
    (labels : List α) : Throughout step inv state labels := by
  -- The invariant is carried from each state to the next.
  induction labels generalizing state with
  | nil => exact start
  | cons label rest ih =>
    exact ⟨start, fun next stepped => ih (kept state label next start stepped)⟩

/-- What holds at the start and survives every step holds wherever a run ends. -/
theorem run_invariant (inv : σ → Prop) {state last : σ} {labels : List α}
    (kept : ∀ s a s', inv s → step s a = some s' → inv s') (start : inv state)
    (ran : run step state labels = some last) : inv last :=
  -- The invariant holds throughout, and so at the end.
  (throughout_of_invariant inv kept start labels).of_run ran

/-- A guarded run preserves what each of its guarded steps preserves. -/
theorem Guarded.run_invariant (inv : σ → Prop) {state last : σ} {labels : List α}
    (kept : ∀ s a s', inv s → guard s a → step s a = some s' → inv s') (start : inv state)
    (guarded : Guarded step guard state labels) (ran : run step state labels = some last) :
    inv last :=
  -- The invariant holds throughout, and so at the end.
  (guarded.throughout inv kept start).of_run ran

/-- What follows from a property that holds throughout holds throughout as well. -/
theorem Throughout.mono {other : σ → Prop} {state : σ} {labels : List α}
    (implied : ∀ s, holds s → other s) (all : Throughout step holds state labels) :
    Throughout step other state labels := by
  -- The implication is applied at every state visited.
  induction labels generalizing state with
  | nil => exact implied state all
  | cons label rest ih =>
    exact ⟨implied state all.1, fun next stepped => ih (all.2 next stepped)⟩

/-- Two properties that hold throughout hold together throughout. -/
theorem Throughout.both {other : σ → Prop} {state : σ} {labels : List α}
    (left : Throughout step holds state labels) (right : Throughout step other state labels) :
    Throughout step (fun s => holds s ∧ other s) state labels := by
  -- Both sequences visit the same states.
  induction labels generalizing state with
  | nil => exact ⟨left, right⟩
  | cons label rest ih =>
    exact ⟨⟨left.1, right.1⟩, fun next stepped => ih (left.2 next stepped) (right.2 next stepped)⟩

/-- Properties that agree wherever the invariant holds, hold throughout the same runs. -/
theorem throughout_congr {other : σ → Prop} {state : σ} {labels : List α}
    (agree : ∀ s, inv s → (holds s ↔ other s)) (kept : Throughout step inv state labels) :
    Throughout step holds state labels ↔ Throughout step other state labels :=
  -- Throughout the run the invariant translates one property into the other.
  ⟨fun all => (all.both kept).mono fun s ⟨here, met⟩ => (agree s met).mp here,
    fun all => (all.both kept).mono fun s ⟨here, met⟩ => (agree s met).mpr here⟩

/-- Two guards met along the same sequence are met together. -/
theorem Guarded.both {other : σ → α → Prop} {state : σ} {labels : List α}
    (left : Guarded step guard state labels) (right : Guarded step other state labels) :
    Guarded step (fun s a => guard s a ∧ other s a) state labels := by
  -- Both sequences take the same steps.
  induction labels generalizing state with
  | nil => trivial
  | cons label rest ih =>
    intro next stepped
    obtain ⟨met, later⟩ := left next stepped
    obtain ⟨met', later'⟩ := right next stepped
    exact ⟨⟨met, met'⟩, ih later later'⟩

/-- A guard that the labels alone meet is met along every sequence of them. -/
theorem guarded_of_forall {meets : α → Prop} {state : σ} {labels : List α}
    (all : ∀ label ∈ labels, meets label) :
    Guarded step (fun _ label => meets label) state labels := by
  -- What holds of all labels holds of the first and of the rest.
  induction labels generalizing state with
  | nil => trivial
  | cons label rest ih =>
    exact fun next _ => ⟨all label List.mem_cons_self,
      ih fun other inside => all other (List.mem_cons_of_mem _ inside)⟩

/-- A guard met along a sequence is met by each of its steps. -/
theorem Guarded.of_run {state middle next : σ} {before after : List α} {label : α}
    (met : Guarded step guard state (before ++ label :: after))
    (ran : run step state before = some middle) (stepped : step middle label = some next) :
    guard middle label := by
  -- The steps before it are taken one by one.
  induction before generalizing state with
  | nil =>
    rw [run_nil, Option.some.injEq] at ran
    subst ran
    exact (met next stepped).1
  | cons first rest ih =>
    obtain ⟨second, taken, ran⟩ := run_cons_eq_some.mp ran
    exact ih (met second taken).2 ran

/-- A guard that follows from another, and from what guarded steps keep, is met as well. -/
theorem Guarded.weaken {other : σ → α → Prop} (inv : σ → Prop) {state : σ} {labels : List α}
    (implied : ∀ s a s', inv s → guard s a → step s a = some s' → other s a)
    (kept : ∀ s a s', inv s → guard s a → step s a = some s' → inv s') (start : inv state)
    (met : Guarded step guard state labels) : Guarded step other state labels := by
  -- Each step meets the guard in a state where the invariant still holds.
  induction labels generalizing state with
  | nil => trivial
  | cons label rest ih =>
    intro next stepped
    obtain ⟨here, later⟩ := met next stepped
    exact ⟨implied state label next start here stepped,
      ih (kept state label next start here stepped) later⟩

/-- Guards that agree as long as both have been met, are met along the same sequences. -/
theorem guarded_congr {other : σ → α → Prop} (inv : σ → Prop) {state : σ} {labels : List α}
    (agree : ∀ s a s', inv s → step s a = some s' → (guard s a ↔ other s a))
    (kept : ∀ s a s', inv s → guard s a → step s a = some s' → inv s') (start : inv state) :
    Guarded step guard state labels ↔ Guarded step other state labels := by
  -- The step about to be taken meets both guards or neither.
  induction labels generalizing state with
  | nil => exact Iff.rfl
  | cons label rest ih =>
    refine forall_congr' fun next => forall_congr' fun stepped => ?_
    have same := agree state label next start stepped
    constructor
    · rintro ⟨met, later⟩
      exact ⟨same.mp met, (ih (kept state label next start met stepped)).mp later⟩
    · rintro ⟨met, later⟩
      exact ⟨same.mpr met, (ih (kept state label next start (same.mpr met) stepped)).mpr later⟩

/--
A property or a guard that breaks at the very step where another guard fails detects it.

The invariant is what every run keeps, guarded or not.
-/
theorem Throughout.guarded_of_guarded {other : σ → α → Prop} {state : σ} {labels : List α}
    (kept : ∀ s a s', inv s → step s a = some s' → inv s')
    (detects : ∀ s a s', inv s → holds s → other s a → step s a = some s' → holds s' → guard s a)
    (start : inv state) (all : Throughout step holds state labels)
    (met : Guarded step other state labels) : Guarded step guard state labels := by
  -- The step about to be taken leads to a state in which the property still holds.
  induction labels generalizing state with
  | nil => trivial
  | cons label rest ih =>
    intro next stepped
    have later := all.2 next stepped
    -- The property still holds after the step, so the step cannot have broken the guard.
    have after : holds next := by
      cases rest with
      | nil => exact later
      | cons => exact later.1
    obtain ⟨here, ahead⟩ := met next stepped
    exact ⟨detects state label next start all.1 here stepped after,
      ih (kept state label next start stepped) later ahead⟩

/-- A property that breaks at the very step where the guard fails characterises guarded runs. -/
theorem Throughout.guarded {state : σ} {labels : List α}
    (kept : ∀ s a s', inv s → step s a = some s' → inv s')
    (detects : ∀ s a s', inv s → holds s → step s a = some s' → holds s' → guard s a)
    (start : inv state) (all : Throughout step holds state labels) :
    Guarded step guard state labels :=
  -- The trivial guard holds of every run, so that the general rule applies.
  all.guarded_of_guarded kept (fun s a s' kept here _ => detects s a s' kept here) start
    (guarded_of_forall fun _ _ => trivial)

/-! ### Runs that come to an end -/

/-- A run of labels that each lower a measure is no longer than the measure at its start. -/
theorem length_le_of_measure (inv : σ → Prop) (measure : σ → Nat) {internal : α → Prop}
    {state last : σ} {labels : List α}
    (kept : ∀ s a s', inv s → internal a → step s a = some s' → inv s')
    (lower : ∀ s a s', inv s → internal a → step s a = some s' → measure s' < measure s)
    (start : inv state) (all : ∀ label ∈ labels, internal label)
    (ran : run step state labels = some last) :
    labels.length + measure last ≤ measure state := by
  -- Each label takes at least one off the measure.
  induction labels generalizing state with
  | nil =>
    rw [run_nil, Option.some.injEq] at ran
    simp [ran]
  | cons label rest ih =>
    obtain ⟨next, stepped, ran⟩ := run_cons_eq_some.mp ran
    have here := all label List.mem_cons_self
    have later := ih (kept state label next start here stepped)
      (fun other inside => all other (List.mem_cons_of_mem _ inside)) ran
    have less := lower state label next start here stepped
    rw [List.length_cons]
    omega

/-- Labels that each lower a measure can be taken until none of them is enabled. -/
theorem exists_run_of_measure (inv : σ → Prop) (measure : σ → Nat) {internal : α → Prop}
    {state : σ} (kept : ∀ s a s', inv s → internal a → step s a = some s' → inv s')
    (lower : ∀ s a s', inv s → internal a → step s a = some s' → measure s' < measure s)
    (start : inv state) :
    ∃ labels last, (∀ label ∈ labels, internal label) ∧ run step state labels = some last ∧
      ∀ label, internal label → step last label = none := by
  -- While a label is enabled it is taken, which can go on only as long as the measure allows.
  induction bound : measure state using Nat.strongRecOn generalizing state with
  | _ n ih =>
    by_cases rest : ∀ label, internal label → step state label = none
    · exact ⟨[], state, by simp, rfl, rest⟩
    · push Not at rest
      obtain ⟨label, here, enabled⟩ := rest
      obtain ⟨next, stepped⟩ := Option.ne_none_iff_exists'.mp enabled
      obtain ⟨labels, last, all, ran, done⟩ :=
        ih (measure next) (bound ▸ lower state label next start here stepped)
          (kept state label next start here stepped) rfl
      refine ⟨label :: labels, last, ?_, run_cons_eq_some.mpr ⟨next, stepped, ran⟩, done⟩
      exact fun other inside => (List.mem_cons.mp inside).elim (fun same => same ▸ here) (all other)

/-- Whether every state along a concrete sequence satisfies a decidable property. -/
instance decidableThroughout [∀ s, Decidable (holds s)] :
    ∀ (state : σ) (labels : List α), Decidable (Throughout step holds state labels)
  | state, [] => inferInstanceAs (Decidable (holds state))
  | state, label :: rest =>
    -- A label that is not enabled ends the sequence.
    match stepped : step state label with
    | none => decidable_of_iff (holds state) (by simp [Throughout, stepped])
    | some next =>
      have := decidableThroughout next rest
      decidable_of_iff (holds state ∧ Throughout step holds next rest)
        (by simp [Throughout, stepped])

/-- Whether every step along a concrete sequence meets a decidable guard. -/
instance decidableGuarded [∀ s a, Decidable (guard s a)] :
    ∀ (state : σ) (labels : List α), Decidable (Guarded step guard state labels)
  | _, [] => isTrue trivial
  | state, label :: rest =>
    -- A label that is not enabled asks for no guard.
    match stepped : step state label with
    | none => isTrue (by simp [Guarded, stepped])
    | some next =>
      have := decidableGuarded next rest
      decidable_of_iff (guard state label ∧ Guarded step guard next rest)
        (by simp [Guarded, stepped])

end Runs
