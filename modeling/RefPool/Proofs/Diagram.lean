import RefPool.Proofs.BreakerEffect

/-! An in-memory breaker keeps to its state diagram until a call settles out of its time. -/

namespace RefPool.BreakerSystem

variable {ν ε : Type} {options : InMemoryCircuitBreakerOptions} {s next : BreakerSystem}

/-- Whether a call was admitted as a probe in the half-open period under way. -/
def CurrentProbe (s : BreakerSystem) (call : BreakerCall) : Prop :=
  call.probe = true ∧ call.period = s.breaker.announced.length

/-- The changes of state of the diagram, by what causes them. -/
inductive Allowed (options : InMemoryCircuitBreakerOptions) (s : BreakerSystem) :
    BreakerAction ν ε → BreakerState → BreakerState → Prop
  /-- A failed call trips a closed breaker. -/
  | trip (c : Nat) (result : Except ε ν) (raises : BreakerState → Bool)
      (failed : result.isOk = false) :
      Allowed options s (.settled c result raises) .closed .open
  /-- A call of `exec` tries an open breaker once the cooldown has passed. -/
  | cool (raises : BreakerState → Bool)
      (cooled : options.cooldownMs ≤ s.now - s.enteredOpenAt) :
      Allowed options s (.exec raises) .open .halfOpen
  /-- A probe of the period under way decides a half-open breaker. -/
  | decided (c : Nat) (call : BreakerCall) (result : Except ε ν) (raises : BreakerState → Bool)
      (reached : BreakerState) (found : s.calls[c]? = some call) (probe : s.CurrentProbe call)
      (final : reached = .closed ∨ reached = .open) :
      Allowed options s (.settled c result raises) .halfOpen reached

/-- The states a breaker announced in a step. -/
def news (s next : BreakerSystem) : List BreakerState :=
  next.breaker.announced.drop s.breaker.announced.length

/-- A step that changes state along the diagram, and is stamped when it opens only. -/
structure Lawful (options : InMemoryCircuitBreakerOptions) (s : BreakerSystem)
    (action : BreakerAction ν ε) (next : BreakerSystem) : Prop where
  /-- The states announced lead from the state before to the state after. -/
  entered : (s.breaker.state :: s.news next).getLast? = some next.breaker.state
  /-- Each of the changes is one of the diagram. -/
  changes : (s.breaker.state :: s.news next).IsChain (Allowed options s action)
  /-- Only an entry into `open` moves the stamp. -/
  stamped : .open ∉ s.news next → next.breaker.openedAt = s.breaker.openedAt

/-- Wherever an action can happen it keeps to the diagram. -/
def FollowsDiagram (options : InMemoryCircuitBreakerOptions) (s : BreakerSystem)
    (action : BreakerAction ν ε) : Prop :=
  ∀ next, s.step options action = some next → Lawful options s action next

/--
A call settles in its time.

A half-open breaker hears of its current probes only, and an open one of failures in the very
instant it opened in. No listener throws when a probe succeeds, unless the breaker bears the
failure that it counts for that.
-/
def OnTime (options : InMemoryCircuitBreakerOptions) (s : BreakerSystem) : BreakerAction ν ε → Prop
  | .settled c result raises => ∀ call ∈ s.calls[c]?,
    match s.breaker.state with
    | .closed => True
    | .halfOpen => s.CurrentProbe call ∧
        (result.isOk = true → raises .closed = true → 1 < options.failureThreshold)
    | .open => result.isOk = false ∧ s.now = s.breaker.openedAt
  | .exec _ | .clock _ => True

/-- What a breaker that followed the diagram so far has on record. -/
structure Recorded (options : InMemoryCircuitBreakerOptions) (s : BreakerSystem) : Prop where
  /-- A breaker that left `closed` has the failures that tripped it on record. -/
  tripped : s.breaker.state ≠ .closed → options.failureThreshold ≤ s.breaker.failures
  /-- The stamp of an open breaker is the moment it opened. -/
  stamped : s.breaker.state = .open → s.breaker.openedAt = s.enteredOpenAt

/-- A new breaker has nothing on record. -/
theorem recorded_init (now : Int) : Recorded options (init now) := by
  -- A new breaker is closed.
  constructor <;> simp [init, InMemoryCircuitBreaker.new]

/-- A step that announces nothing is lawful when it moves neither state nor stamp. -/
theorem lawful_of_silent {action : BreakerAction ν ε}
    (silent : next.breaker.announced = s.breaker.announced)
    (state : next.breaker.state = s.breaker.state)
    (stamp : next.breaker.openedAt = s.breaker.openedAt) : Lawful options s action next := by
  -- Without news the chain is a single state.
  have nothing : s.news next = [] := by simp [news, silent]
  constructor <;> simp [nothing, state, stamp]

/-- A step that announces one state is lawful exactly when that change is allowed. -/
theorem lawful_of_single {action : BreakerAction ν ε} (reached : BreakerState)
    (announced : next.breaker.announced = s.breaker.announced ++ [reached])
    (state : next.breaker.state = reached)
    (stamp : reached ≠ .open → next.breaker.openedAt = s.breaker.openedAt) :
    Lawful options s action next ↔ Allowed options s action s.breaker.state reached := by
  -- The chain has one link, from the state before to the state reached.
  have one : s.news next = [reached] := by simp [news, announced]
  constructor
  · rintro ⟨-, changes, -⟩
    simpa [one] using changes
  · intro allowed
    refine ⟨by simp [one, state], by simpa [one] using allowed, fun unopened => stamp ?_⟩
    rintro rfl
    simp [one] at unopened

/-- A half-open breaker is decided by its current probes only. -/
theorem allowed_halfOpen {c : Nat} {call : BreakerCall} {result : Except ε ν}
    {raises : BreakerState → Bool} {reached : BreakerState} (found : s.calls[c]? = some call)
    (final : reached = .closed ∨ reached = .open) :
    Allowed options s (.settled c result raises) .halfOpen reached ↔ s.CurrentProbe call := by
  -- No other change of the diagram leaves the half-open state.
  constructor
  · intro allowed
    cases allowed with
    | decided _ other _ _ _ present probe =>
      cases found.symm.trans present
      exact probe
  · exact fun probe => .decided c call result raises reached found probe final

/-- A settlement leads an open breaker nowhere. -/
theorem not_allowed_open {c : Nat} {result : Except ε ν} {raises : BreakerState → Bool}
    {reached : BreakerState} :
    ¬Allowed options s (.settled c result raises) .open reached := by
  -- The diagram leaves the open state by a call of `exec` only.
  rintro ⟨⟩

/-- A settlement in the open state is on time when it is a failure in the instant of opening. -/
theorem onTime_open {c : Nat} {call : BreakerCall} {result : Except ε ν}
    {raises : BreakerState → Bool} (found : s.calls[c]? = some call)
    (opened : s.breaker.state = .open) :
    s.OnTime options (.settled c result raises) ↔
      result.isOk = false ∧ s.now = s.breaker.openedAt := by
  -- The call is the one that settles, and the state selects what is asked of it.
  simp [OnTime, found, opened]

/-- A settlement in the half-open state is on time when it is that of a current probe. -/
theorem onTime_halfOpen {c : Nat} {call : BreakerCall} {result : Except ε ν}
    {raises : BreakerState → Bool} (found : s.calls[c]? = some call)
    (halfOpen : s.breaker.state = .halfOpen) :
    s.OnTime options (.settled c result raises) ↔ s.CurrentProbe call ∧
      (result.isOk = true → raises .closed = true → 1 < options.failureThreshold) := by
  -- The call is the one that settles, and the state selects what is asked of it.
  simp [OnTime, found, halfOpen]

/-- Every settlement in the closed state is on time. -/
theorem onTime_closed {c : Nat} {result : Except ε ν} {raises : BreakerState → Bool}
    (closed : s.breaker.state = .closed) : s.OnTime options (.settled c result raises) := by
  -- A closed breaker may hear of every call.
  simp [OnTime, closed]

/-- A success that closes the breaker is lawful exactly when it is on time. -/
theorem lawful_recovery {c : Nat} {call : BreakerCall} {value : ν}
    {raises : BreakerState → Bool} (awaited : s.Awaited c call)
    (tripped : s.breaker.state ≠ .closed)
    (borne : raises .closed = true → 1 < options.failureThreshold)
    (announced : next.breaker.announced = s.breaker.announced ++ [.closed])
    (state : next.breaker.state = .closed) (stamp : next.breaker.openedAt = s.breaker.openedAt) :
    Lawful options s (.settled c (.ok value : Except ε ν) raises) next ↔
      s.OnTime options (.settled c (.ok value : Except ε ν) raises) := by
  -- There is one change, which the diagram allows in the half-open state only.
  rw [lawful_of_single .closed announced state fun _ => stamp]
  cases origin : s.breaker.state with
  | closed => exact absurd origin tripped
  | «open» =>
    rw [onTime_open awaited.found origin]
    simp [not_allowed_open, Except.isOk, Except.toBool]
  | halfOpen =>
    rw [onTime_halfOpen awaited.found origin, allowed_halfOpen awaited.found (.inl rfl)]
    exact (and_iff_left fun _ => borne).symm

/-- A success after which a listener makes the breaker trip again is neither lawful nor on time. -/
theorem lawful_relapse {c : Nat} {call : BreakerCall} {value : ν}
    {raises : BreakerState → Bool} (awaited : s.Awaited c call)
    (tripped : s.breaker.state ≠ .closed) (raised : raises .closed = true)
    (reached : options.failureThreshold ≤ 1)
    (announced : next.breaker.announced = s.breaker.announced ++ [.closed, .open]) :
    Lawful options s (.settled c (.ok value : Except ε ν) raises) next ↔
      s.OnTime options (.settled c (.ok value : Except ε ν) raises) := by
  have said : s.news next = [.closed, .open] := by simp [news, announced]
  -- The second change trips the breaker on a call that did not fail.
  refine iff_of_false (fun lawful => ?_) fun onTime => ?_
  · have changes := lawful.changes
    rw [said, List.isChain_cons_cons, List.isChain_cons_cons] at changes
    cases changes.2.1 with
    | trip _ _ _ failed => simp [Except.isOk, Except.toBool] at failed
  · cases origin : s.breaker.state with
    | closed => exact tripped origin
    | «open» =>
      have failed := ((onTime_open awaited.found origin).mp onTime).1
      simp [Except.isOk, Except.toBool] at failed
    | halfOpen =>
      have borne := ((onTime_halfOpen awaited.found origin).mp onTime).2 rfl raised
      omega

/-- A step keeps to the diagram exactly when it is on time. -/
theorem Effect.lawful_iff {action : BreakerAction ν ε} (recorded : Recorded options s)
    (effect : Effect options s action next) :
    Lawful options s action next ↔ s.OnTime options action := by
  -- A breaker that changes state is judged by what the diagram says of the change.
  have easy {p q : Prop} (left : p) (right : q) : p ↔ q := iff_of_true left right
  cases effect with
  | passed | cooling | full | probed | clock => exact easy (lawful_of_silent rfl rfl rfl) trivial
  | reopened raises opened cooled | reprobed raises opened cooled =>
    -- The stamp is the moment the breaker opened, so the cooldown has really passed.
    refine easy ?_ trivial
    rw [lawful_of_single .halfOpen (by rfl) (by rfl) fun _ => by rfl, opened]
    exact .cool raises (recorded.stamped opened ▸ cooled)
  | succeeded c call value raises awaited closed =>
    exact easy (lawful_of_silent rfl rfl rfl) (onTime_closed closed)
  -- These close the breaker, and the last of them trips it again.
  | recovered c call value raises awaited tripped heard =>
    exact lawful_recovery awaited tripped (fun raised => by simp [heard] at raised) rfl rfl rfl
  | spoiled c call value raises awaited tripped raised below =>
    exact lawful_recovery awaited tripped (fun _ => below) rfl rfl rfl
  | relapsed c call value raises awaited tripped raised reached =>
    exact lawful_relapse awaited tripped raised reached (by simp [opening, closing, settling])
  -- Nothing is announced while failures are only counted.
  | counted c call error raises awaited closed =>
    exact easy (lawful_of_silent rfl rfl rfl) (onTime_closed closed)
  | tripped c call error raises awaited closed =>
    refine easy ?_ (onTime_closed closed)
    rw [lawful_of_single .open rfl rfl (by simp), closed]
    exact .trip c (.error error) raises rfl
  -- A failure opens a half-open breaker.
  | failed c call error raises awaited halfOpen =>
    rw [lawful_of_single .open rfl rfl (by simp), halfOpen,
      onTime_halfOpen awaited.found halfOpen, allowed_halfOpen awaited.found (.inr rfl)]
    exact (and_iff_left fun fulfilled => by
      simp [Except.isOk, Except.toBool] at fulfilled).symm
  | late c call error raises awaited opened openedAt stamped =>
    -- The failures that tripped the breaker are on record, so the stamp moves to the present.
    have moved : openedAt = s.now := by
      have reached := recorded.tripped (by simp [opened])
      rw [stamped, if_pos (by omega)]
    rw [onTime_open awaited.found opened]
    constructor
    · intro lawful
      have kept := lawful.stamped (by simp [news, counting, settling])
      exact ⟨rfl, moved.symm.trans kept⟩
    · rintro ⟨-, instant⟩
      exact lawful_of_silent rfl rfl (moved.trans instant)

/-- A step on time keeps the record. -/
theorem Effect.recorded {action : BreakerAction ν ε} (recorded : Recorded options s)
    (effect : Effect options s action next) (onTime : s.OnTime options action) :
    Recorded options next := by
  -- The failures on record change with a settlement, and the stamp when the breaker opens.
  obtain ⟨reached, stamp⟩ := recorded
  cases effect with
  | passed | cooling | full | probed | clock => exact ⟨reached, stamp⟩
  | reopened raises opened | reprobed raises opened =>
    exact ⟨fun _ => reached (by simp [opened]), by simp [reopening, calling]⟩
  | succeeded c call value raises awaited closed | counted c call error raises awaited closed =>
    constructor <;> simp [counting, settling, closed]
  | recovered | spoiled => constructor <;> simp [closing]
  | relapsed c call value raises awaited tripped raised below =>
    exact ⟨fun _ => by simpa [opening] using below, fun _ => rfl⟩
  | tripped c call error raises awaited closed below =>
    exact ⟨fun _ => by simpa [opening] using below, fun _ => rfl⟩
  | failed c call error raises awaited halfOpen =>
    exact ⟨fun _ => reached (by simp [halfOpen]), fun _ => rfl⟩
  -- The stamp is the present, which is the instant in which the breaker opened.
  | late c call error raises awaited opened openedAt stamped =>
    have before := reached (by simp [opened])
    obtain ⟨-, instant⟩ := (onTime_open awaited.found opened).mp onTime
    refine ⟨fun _ => ?_, fun _ => ?_⟩
    · show options.failureThreshold ≤ ((s.breaker.failures + 1 : Nat) : Int)
      omega
    · show openedAt = s.enteredOpenAt
      rw [stamped, if_pos (by omega), instant, stamp opened]

/-- Every step of a run keeps to the diagram exactly when every settlement in it is on time. -/
theorem followsDiagram_iff (options : InMemoryCircuitBreakerOptions) (now : Int)
    (actions : List (BreakerAction ν ε)) :
    Runs.Guarded (step options) (FollowsDiagram options) (init now) actions ↔
      Runs.Guarded (step options) (OnTime options) (init now) actions := by
  -- While the run is on time the record is kept, and the record makes both sides agree.
  refine (Runs.guarded_congr (Recorded options) (fun s action next recorded stepped => ?_)
    (fun s action next recorded onTime stepped => ?_) (recorded_init now)).symm
  · have lawful := (effect_of_step stepped).lawful_iff recorded
    refine ⟨fun onTime other stepped' => ?_, fun follows => lawful.mp (follows next stepped)⟩
    cases stepped.symm.trans stepped'
    exact lawful.mpr onTime
  · exact (effect_of_step stepped).recorded recorded onTime

/-- A success that was admitted before the trip closes an open breaker. -/
theorem followsDiagram_overtaken :
    ¬Runs.Guarded (step { failureThreshold := 1 }) (FollowsDiagram { failureThreshold := 1 })
      (init 0)
      ([.exec fun _ => false, .exec fun _ => false, .settled 0 (.error ()) fun _ => false,
        .settled 1 (.ok ()) fun _ => false] : List (BreakerAction Unit Unit)) := by
  -- Follow the run to its last step.
  intro guarded
  obtain ⟨-, guarded⟩ := guarded _ rfl
  obtain ⟨-, guarded⟩ := guarded _ rfl
  obtain ⟨-, guarded⟩ := guarded _ rfl
  obtain ⟨follows, -⟩ := guarded _ rfl
  -- The last step leads from `open` to `closed`.
  have changes := (follows _ rfl).changes
  rw [show news _ _ = [BreakerState.closed] from rfl, List.isChain_cons_cons] at changes
  exact not_allowed_open changes.1

end RefPool.BreakerSystem
