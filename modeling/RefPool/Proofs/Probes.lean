import RefPool.Proofs.BreakerEffect

/-! The probes in flight stay within the option until those of an earlier period are too many. -/

namespace RefPool

/-- Whether a call was admitted while the breaker was half-open and is still in flight. -/
def BreakerCall.running (call : BreakerCall) : Bool := call.probe && !call.settled

namespace BreakerSystem

variable {ν ε : Type} {options : InMemoryCircuitBreakerOptions} {s next : BreakerSystem}

/-- The calls in flight that were admitted while the breaker was half-open. -/
def probesInFlight (s : BreakerSystem) : Nat := s.calls.countP BreakerCall.running

/-- The probes in flight that were admitted in the period under way. -/
def currentProbes (s : BreakerSystem) : Nat :=
  s.calls.countP fun call => call.running && call.period = s.breaker.announced.length

/-- The probes in flight that were admitted in an earlier half-open period. -/
def stragglers (s : BreakerSystem) : Nat :=
  s.calls.countP fun call => call.running && call.period ≠ s.breaker.announced.length

/-- The probes in flight are at most as many as the option permits. -/
def ProbesBounded (options : InMemoryCircuitBreakerOptions) (s : BreakerSystem) : Prop :=
  s.probesInFlight ≤ options.halfOpenMaxAttempts

/-- Whether the probes in flight are within the option can be checked. -/
instance (s : BreakerSystem) : Decidable (s.ProbesBounded options) := by
  unfold ProbesBounded
  infer_instance

/--
A probe is admitted while the earlier ones leave room for it.

The attempts on record are those of the period under way, and none where the call starts one.
-/
def RoomForProbe (options : InMemoryCircuitBreakerOptions) (s : BreakerSystem) :
    BreakerAction ν ε → Prop
  | .exec raises =>
    match s.breaker.state with
    | .closed => True
    | .open => options.cooldownMs ≤ s.now - s.breaker.openedAt → raises .halfOpen = false →
        (s.probesInFlight : Int) < options.halfOpenMaxAttempts
    | .halfOpen => s.breaker.halfOpenAttempts < options.halfOpenMaxAttempts →
        (s.stragglers + s.breaker.halfOpenAttempts : Int) < options.halfOpenMaxAttempts
  | .settled _ _ _ | .clock _ => True

/-- What the attempts on record say about the calls. -/
structure Dated (s : BreakerSystem) : Prop where
  /-- No call was admitted in a period to come. -/
  past : ∀ call ∈ s.calls, call.period ≤ s.breaker.announced.length
  /-- A half-open breaker has its current probes on record, all of which are in flight. -/
  attempts : s.breaker.state = .halfOpen → s.breaker.halfOpenAttempts = s.currentProbes

/-- A new breaker has no calls. -/
theorem dated_init (now : Int) : Dated (init now) := by
  -- A closed breaker has neither calls nor attempts.
  constructor <;> simp [init, InMemoryCircuitBreaker.new]

/-- A probe in flight belongs to the period under way or to an earlier one. -/
theorem probesInFlight_eq (s : BreakerSystem) :
    s.probesInFlight = s.stragglers + s.currentProbes := by
  unfold probesInFlight stragglers currentProbes
  -- The calls are counted one at a time, each on one side.
  induction s.calls with
  | nil => rfl
  | cons call rest ih =>
    simp only [List.countP_cons, ih]
    by_cases running : call.running <;>
      by_cases current : call.period = s.breaker.announced.length <;>
      simp [running, current] <;> omega

/-- A call that settles is a probe in flight no longer. -/
theorem probesInFlight_settling (s : BreakerSystem) (c : Nat) :
    (s.settling c).probesInFlight ≤ s.probesInFlight := by
  -- The call counts for less than before, or is not there at all.
  unfold probesInFlight settling
  cases found : s.calls[c]? with
  | none =>
    exact Nat.le_of_eq (by rw [List.modify_eq_self (by simpa using found)])
  | some call =>
    have moved := Arena.countP_modify (fun call : BreakerCall => { call with settled := true })
      BreakerCall.running found
    simp only [BreakerCall.running, Bool.not_true, Bool.and_false, Bool.false_eq_true,
      if_false] at moved ⊢
    omega

/-- An admitted probe is one more in flight. -/
theorem probesInFlight_calling (s : BreakerSystem) (probe : Bool) :
    (s.calling probe).probesInFlight = s.probesInFlight + if probe then 1 else 0 := by
  -- The new call counts if it is a probe.
  cases probe <;> simp [probesInFlight, calling, BreakerCall.running]

/-- A call that settles leaves the others dated. -/
theorem Dated.settling (dated : Dated s) (c : Nat) :
    ∀ call ∈ (s.settling c).calls, call.period ≤ s.breaker.announced.length := by
  -- Settling changes no period.
  intro call inside
  obtain ⟨i, read⟩ := List.mem_iff_getElem?.mp inside
  rcases Arena.getElem?_modify_cases read with ⟨-, old, before, rfl⟩ | ⟨-, before⟩
  · exact dated.past old (List.mem_of_getElem? before)
  · exact dated.past call (List.mem_of_getElem? before)

/-- An admitted call is dated like the others. -/
theorem past_calling (past : ∀ call ∈ s.calls, call.period ≤ s.breaker.announced.length)
    (probe : Bool) : ∀ call ∈ (s.calling probe).calls,
      call.period ≤ s.breaker.announced.length := by
  -- The call is admitted in the period under way.
  intro call inside
  rcases List.mem_append.mp inside with before | new
  · exact past call before
  · have period : call.period = s.breaker.announced.length := by rw [List.mem_singleton.mp new]
    exact Nat.le_of_eq period

/-- No probe is current in a period that has just begun. -/
theorem Dated.currentProbes_reopening (dated : Dated s) (attempts : Nat) :
    (s.reopening attempts).currentProbes = 0 := by
  -- Every call was admitted before the announcement that began the period.
  refine List.countP_eq_zero.mpr fun call inside current => ?_
  have past := dated.past call inside
  simp only [reopening, List.length_append, List.length_singleton, Bool.and_eq_true,
    decide_eq_true_eq] at current
  omega

/-- An admitted probe is current. -/
theorem currentProbes_calling (s : BreakerSystem) :
    (s.calling true).currentProbes = s.currentProbes + 1 := by
  -- The new call is running, and of the period under way.
  simp only [currentProbes, calling, List.countP_append, List.countP_singleton]
  simp [BreakerCall.running]
  rfl

/-- Every step leaves the calls dated. -/
theorem Effect.dated {action : BreakerAction ν ε} (dated : Dated s)
    (effect : Effect options s action next) : Dated next := by
  have later {reached : BreakerState} {call : BreakerCall}
      (past : call.period ≤ s.breaker.announced.length) :
      call.period ≤ (s.breaker.announced ++ [reached]).length := by
    simp only [List.length_append, List.length_singleton]
    omega
  cases effect with
  | passed raises closed =>
    exact ⟨past_calling dated.past false, by simp [calling, closed]⟩
  | cooling | full => exact dated
  -- A new period makes the earlier ones past, and begins without probes.
  | reopened =>
    exact ⟨fun call inside => later (dated.past call inside),
      fun _ => (dated.currentProbes_reopening 0).symm⟩
  | reprobed raises opened =>
    refine ⟨past_calling (s := s.reopening 1)
      (fun call inside => later (dated.past call inside)) true, fun _ => ?_⟩
    rw [currentProbes_calling, dated.currentProbes_reopening 1]
    rfl
  -- The probe is counted, and so is the attempt.
  | probed raises halfOpen =>
    refine ⟨past_calling (s := s.probing) dated.past true, fun _ => ?_⟩
    rw [currentProbes_calling]
    exact congrArg (· + 1) (dated.attempts halfOpen)
  -- The breaker is not half-open after these.
  | succeeded c call value raises awaited state | counted c call error raises awaited state
  | late c call error raises awaited state =>
    exact ⟨dated.settling c, by simp [counting, settling, state]⟩
  | recovered c | spoiled c | tripped c | failed c =>
    exact ⟨fun call inside => later (dated.settling c call inside), by simp [closing, opening]⟩
  | relapsed c =>
    refine ⟨fun call inside => ?_, by simp [opening]⟩
    have past := dated.settling c call inside
    simp only [opening, closing, settling, List.length_append, List.length_singleton]
    omega
  | clock => exact ⟨dated.past, dated.attempts⟩

/-- A step keeps the probes within the option exactly when there is room for its probe. -/
theorem Effect.bounded_iff_room {action : BreakerAction ν ε}
    (permitted : 1 ≤ options.halfOpenMaxAttempts) (dated : Dated s)
    (effect : Effect options s action next) (bounded : ProbesBounded options s) :
    ProbesBounded options next ↔ RoomForProbe options s action := by
  -- Only an admitted probe adds to those in flight.
  have settled (c : Nat) : ((s.settling c).probesInFlight : Int) ≤ options.halfOpenMaxAttempts :=
    Int.le_trans (Int.ofNat_le.mpr (probesInFlight_settling s c)) bounded
  have easy {p q : Prop} (left : p) (right : q) : p ↔ q := iff_of_true left right
  cases effect with
  | passed raises closed =>
    refine easy ?_ (by simp [RoomForProbe, closed])
    unfold ProbesBounded at bounded ⊢
    rw [probesInFlight_calling]
    simpa using bounded
  -- An open breaker has to cool down first.
  | cooling raises opened early =>
    exact easy bounded (by simp only [RoomForProbe, opened]; omega)
  | reopened raises opened cooled unprobed =>
    -- A listener threw, so the period starts without a probe to make room for.
    refine easy bounded ?_
    have raised : raises .halfOpen = true := unprobed.resolve_right (by omega)
    simp [RoomForProbe, opened, raised]
  -- The period starts with a probe, and those in flight are all stragglers by now.
  | reprobed raises opened cooled heard =>
    unfold ProbesBounded
    rw [probesInFlight_calling]
    simp only [RoomForProbe, opened, cooled, heard, forall_const, if_true]
    show ((s.probesInFlight + 1 : Nat) : Int) ≤ _ ↔ _
    omega
  | full raises halfOpen spent =>
    exact easy bounded (by simp only [RoomForProbe, halfOpen]; omega)
  | probed raises halfOpen below =>
    -- The attempts on record are the current probes, so both sides count the same calls.
    have split := s.probesInFlight_eq
    rw [← dated.attempts halfOpen] at split
    unfold ProbesBounded
    rw [probesInFlight_calling]
    simp only [RoomForProbe, halfOpen, below, forall_const, if_true]
    show ((s.probesInFlight + 1 : Nat) : Int) ≤ _ ↔ _
    omega
  | succeeded c | recovered c | spoiled c | relapsed c | counted c | tripped c | failed c
  | late c => exact easy (settled c) trivial
  | clock => exact easy bounded trivial

/-- The probes stay within the option exactly when each of them finds room. -/
theorem probesBounded_iff (options : InMemoryCircuitBreakerOptions)
    (permitted : 1 ≤ options.halfOpenMaxAttempts) (now : Int)
    (actions : List (BreakerAction ν ε)) :
    Runs.Throughout (step options) (ProbesBounded options) (init now) actions ↔
      Runs.Guarded (step options) (RoomForProbe options) (init now) actions := by
  have start : ProbesBounded options (init now) := by
    unfold ProbesBounded probesInFlight init
    exact Int.le_trans Int.one_nonneg permitted
  constructor
  · -- A probe without room breaks the bound at once.
    exact Runs.Throughout.guarded
      (fun s action next dated stepped => (effect_of_step stepped).dated dated)
      (fun s action next dated bounded stepped after =>
        ((effect_of_step stepped).bounded_iff_room permitted dated bounded).mp after)
      (dated_init now)
  -- Where every probe finds room the bound is kept along the run.
  · intro guarded
    refine (guarded.throughout (fun s => Dated s ∧ ProbesBounded options s) ?_
      ⟨dated_init now, start⟩).mono fun s => And.right
    intro s action next kept room stepped
    have effect := effect_of_step stepped
    exact ⟨effect.dated kept.1, (effect.bounded_iff_room permitted kept.1 kept.2).mpr room⟩

/-- A breaker that recovers with its second probe still running, and trips again. -/
theorem probesBounded_iff_recovered :
    1 ≤ (2 : Int) ∧
      (Runs.Throughout (step { failureThreshold := 1, halfOpenMaxAttempts := 2 })
          (ProbesBounded { failureThreshold := 1, halfOpenMaxAttempts := 2 }) (init 0)
          ([.exec fun _ => false, .settled 0 (.error ()) fun _ => false, .clock 30000,
            .exec fun _ => false, .exec fun _ => false, .settled 1 (.ok ()) fun _ => false,
            .exec fun _ => false, .settled 3 (.error ()) fun _ => false, .clock 60000,
            .exec fun _ => false] : List (BreakerAction Unit Unit)) ↔
        Runs.Guarded (step { failureThreshold := 1, halfOpenMaxAttempts := 2 })
          (RoomForProbe { failureThreshold := 1, halfOpenMaxAttempts := 2 }) (init 0)
          ([.exec fun _ => false, .settled 0 (.error ()) fun _ => false, .clock 30000,
            .exec fun _ => false, .exec fun _ => false, .settled 1 (.ok ()) fun _ => false,
            .exec fun _ => false, .settled 3 (.error ()) fun _ => false, .clock 60000,
            .exec fun _ => false] : List (BreakerAction Unit Unit))) :=
  -- Probes are permitted, as the theorem asks.
  ⟨by decide, probesBounded_iff { failureThreshold := 1, halfOpenMaxAttempts := 2 } (by decide) 0 _⟩

/-- A probe of an earlier period and one of the next are in flight at once, where one is allowed. -/
theorem probesBounded_reentered :
    ¬Runs.Throughout (step { failureThreshold := 1 }) (ProbesBounded { failureThreshold := 1 })
      (init 0)
      ([.exec fun _ => false, .exec fun _ => false, .settled 0 (.error ()) fun _ => false,
        .clock 30000, .exec fun _ => false, .settled 1 (.error ()) fun _ => false, .clock 60000,
        .exec fun _ => false] : List (BreakerAction Unit Unit)) := by
  -- Call 2 is still in flight when call 3 is admitted as the probe of the next period.
  decide

/-! ### The attempts on record -/

/-- A half-open breaker has its running probes on record, and refuses calls for them alone. -/
structure AttemptsExact (options : InMemoryCircuitBreakerOptions) (s : BreakerSystem) : Prop where
  attempts : s.breaker.state = .halfOpen → s.breaker.halfOpenAttempts = s.currentProbes
  /-- A call is refused while the breaker cools down, or while a current probe runs. -/
  refused : ∀ raises, (s.breaker.exec options s.now raises).2 = .refused →
    (s.breaker.state = .open ∧ s.now - s.breaker.openedAt < options.cooldownMs) ∨
      (s.breaker.state = .halfOpen ∧ 0 < s.currentProbes)

open InMemoryCircuitBreaker in
/-- A breaker that permits a probe refuses one only when its attempts on record are used up. -/
theorem refused_cases (permitted : 1 ≤ options.halfOpenMaxAttempts)
    {raises : BreakerState → Bool}
    (refused : (s.breaker.exec options s.now raises).2 = .refused) :
    (s.breaker.state = .open ∧ s.now - s.breaker.openedAt < options.cooldownMs) ∨
      (s.breaker.state = .halfOpen ∧
        options.halfOpenMaxAttempts ≤ s.breaker.halfOpenAttempts) := by
  cases state : s.breaker.state with
  | closed => simp [exec, takeProbe, state] at refused
  | «open» =>
    by_cases cooled : options.cooldownMs ≤ s.now - s.breaker.openedAt
    · -- The period that starts here has its first probe to give.
      have room : ¬options.halfOpenMaxAttempts ≤ 0 := by omega
      cases raised : raises .halfOpen <;>
        simp [exec, transition, takeProbe, state, cooled, raised, room] at refused
    · exact .inl ⟨rfl, by omega⟩
  | halfOpen =>
    refine .inr ⟨rfl, ?_⟩
    by_contra below
    simp [exec, takeProbe, state, below] at refused

/-- In every run the attempts on record of a half-open breaker are its running probes. -/
theorem attemptsExact_throughout (options : InMemoryCircuitBreakerOptions)
    (permitted : 1 ≤ options.halfOpenMaxAttempts) (now : Int)
    (actions : List (BreakerAction ν ε)) :
    Runs.Throughout (step options) (AttemptsExact options) (init now) actions := by
  -- Every settlement leaves the half-open state, so within a period the record only grows.
  have kept : Runs.Throughout (step options) Dated (init now) actions :=
    Runs.throughout_of_invariant Dated
      (fun s action next dated stepped => (effect_of_step stepped).dated dated) (dated_init now)
      actions
  refine kept.mono fun s dated => ⟨dated.attempts, fun raises refused => ?_⟩
  rcases refused_cases permitted refused with cooling | ⟨halfOpen, spent⟩
  · exact .inl cooling
  · refine .inr ⟨halfOpen, ?_⟩
    rw [dated.attempts halfOpen] at spent
    omega

/-- A straggler settles in the next half-open period, and the probe of that period still counts. -/
theorem attemptsExact_throughout_straggling :
    Runs.Throughout (step { failureThreshold := 1 }) (AttemptsExact { failureThreshold := 1 })
      (init 0)
      ([.exec fun _ => false, .exec fun _ => false, .settled 0 (.error ()) fun _ => false,
        .clock 30000, .exec fun _ => false, .exec fun _ => false,
        .settled 1 (.error ()) fun _ => false, .clock 60000, .exec fun _ => false,
        .settled 2 (.ok ()) fun _ => false] : List (BreakerAction Unit Unit)) :=
  -- Probes are permitted, as the theorem asks.
  attemptsExact_throughout { failureThreshold := 1 } (by decide) 0 _

end BreakerSystem

end RefPool
