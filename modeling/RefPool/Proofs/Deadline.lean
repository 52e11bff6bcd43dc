import RefPool.Proofs.Blocked
import RefPool.Proofs.Lifecycle

/-! How long an acquire may be blocked on capacity before it is granted a slot or settles. -/

namespace RefPool

namespace Gate.Moves

variable {gate next : Gate}

/-- A waiter whose promise is still pending is as it was. -/
theorem pending (moves : Moves gate next) (sound : gate.Sound) {w : Nat}
    {waiter : CapacityWaiter} (found : next.waiters[w]? = some waiter)
    (awaited : waiter.promise = .pending) : gate.waiters[w]? = some waiter := by
  -- What settles is resolved or rejected, and so no longer pending.
  obtain ⟨before, present, rfl | ⟨-, resolved | ⟨error, -, rejected⟩⟩⟩ := moves.waiter sound found
  · exact present
  · simp [resolved] at awaited
  · simp [rejected] at awaited

end Gate.Moves

namespace State

variable {κ τ : Type} [DecidableEq κ] {options : PoolOptions} {s next : State κ τ}

/-- A turn of the reservation loop takes no time. -/
theorem SlotEffect.now {a : AcquireId} (effect : SlotEffect options s a next) :
    next.now = s.now := by
  -- None of its outcomes sets the clock.
  cases effect <;> rfl

/-- `obtain` from the orphan lookup on takes no time. -/
theorem MissEffect.now {a : AcquireId} {key : κ} (effect : MissEffect options s a key next) :
    next.now = s.now := by
  -- Only the reservation loop remains to be looked at.
  cases effect with
  | slot _ _ _ effect => exact effect.now
  | resurrected | refused => rfl

/-- Dropping a reference takes no time. -/
theorem ReleaseEffect.now {e : EntryId} (effect : ReleaseEffect s e next) :
    next.now = s.now := by
  -- None of its outcomes sets the clock.
  cases effect <;> rfl

/-- Only the clock tells the time. -/
theorem Effect.now {action : Action κ τ} (core : Core s)
    (effect : Effect options s action next) (timeless : ∀ now, action ≠ .clock now) :
    next.now = s.now := by
  -- A drain or a sweep is over before any time passes.
  cases effect with
  | clock now => exact absurd rfl (timeless now)
  | released h handle next _ _ effect => exact effect.now
  | releasedKey key e next _ effect => exact effect.now
  | missed a acquire after next _ _ _ _ effect => exact effect.now
  | discarded a acquire live next _ _ effect => exact effect.now
  | resumed a acquire w waiter next _ _ _ _ effect => exact effect.now
  | drain => exact (drain_frame core.store).2.2.2
  | stop => exact (drain_frame (s := s.setClosed.stopTimers) core.store).2.2.2
  | sweep =>
    exact (sweep_rule options (P := fun next => next.now = s.now) core.store
      (fun _ _ _ _ kept _ _ _ => kept) (fun _ _ => id) rfl).2
  | shared | queued | releasedAgain | releasedNone | start | gcKeyState | emitStats | timeout
  | validating | returned | abandoned | breakerless | creating | delivered | failed | drained
  | unvalidated | passed | refuted | factoryCalled | factorySettled | execRejected | execLate
  | inserted | disposeSettled | lateDisposeSettled | breakerChanged => rfl

/--
The clock passes no timer that is due.

It does not run backwards, and it waits for parked calls that have been woken or rejected.
-/
def Punctual (s : State κ τ) : Action κ τ → Prop
  | .clock now => s.now ≤ now ∧ (∀ waiter ∈ s.waiters, ∀ deadline ∈ waiter.timer, now ≤ deadline) ∧
      ∀ acquire ∈ s.acquires, acquire.phase.waiter.isSome = true → s.isParked acquire = true
  | _ => True

omit [DecidableEq κ] in
/-- Whether the clock passes a due timer can be checked. -/
instance (s : State κ τ) (action : Action κ τ) : Decidable (s.Punctual action) := by
  induction action using Action.casesOn <;> unfold Punctual <;> infer_instance

/-- No woken call parks again. -/
def ParksOnce (options : PoolOptions) (s : State κ τ) : Action κ τ → Prop
  | .resume a => ¬ s.Parks options (.resume a)
  | _ => True

/-- Whether a woken call parks again can be checked. -/
instance (s : State κ τ) (action : Action κ τ) : Decidable (s.ParksOnce options action) := by
  induction action using Action.casesOn <;> unfold ParksOnce <;> infer_instance

end State

/-- A pool, with the moment from which each waiting call has been blocked on capacity. -/
structure Timed (κ τ : Type) where
  pool : State κ τ
  /-- The moment by call, absent for a call that was not blocked or waits no longer. -/
  since : List (Option Int)

namespace Timed

variable {κ τ : Type} [DecidableEq κ] {options : PoolOptions} {s next : Timed κ τ}

/-- A new pool, in which nobody waits. -/
def init (options : PoolOptions) : Timed κ τ := ⟨State.init options, []⟩

/-- Remember since when each call has been blocked, until it is granted a slot or settles. -/
def observe (since : List (Option Int)) (pool : State κ τ) : List (Option Int) :=
  pool.acquires.mapIdx fun a acquire =>
    if acquire.phase.isWaiting then
      ((since[a]?).getD none).or (if pool.isBlocked acquire then some pool.now else none)
    else none

/-- The effect of an action on the pool, observed. -/
def step (options : PoolOptions) (s : Timed κ τ) (action : Action κ τ) : Option (Timed κ τ) :=
  (s.pool.step options action).map fun pool => ⟨pool, observe s.since pool⟩

/-- No call has been blocked for longer than a finite timeout. -/
def OnTime (options : PoolOptions) (s : Timed κ τ) : Prop :=
  ∀ count, options.timeout = .ms count → 0 ≤ count → ∀ (a : Nat) start,
    s.since[a]? = some (some start) → s.pool.now - start ≤ count

/-- What a run keeps while no call is left without its timer. -/
structure Watched (options : PoolOptions) (s : Timed κ τ) : Prop where
  lined : s.pool.Lined options
  alone : s.pool.NoneBehind
  /-- Every parked call is counted. -/
  known : ∀ (a : Nat) acquire w, s.pool.acquires[a]? = some acquire →
    acquire.phase = .parked w → ∃ start, s.since[a]? = some (some start)
  /-- Only parked calls are, and their timers are set for the moment they have been blocked. -/
  timed : ∀ (a : Nat) start, s.since[a]? = some (some start) →
    ∃ acquire w, s.pool.acquires[a]? = some acquire ∧ acquire.phase = .parked w ∧
      ∀ count, options.timeout = .ms count → 0 ≤ count → s.pool.now ≤ start + count ∧
        ∀ waiter, s.pool.waiters[w]? = some waiter → waiter.promise = .pending →
          waiter.timer = some (start + count)

omit [DecidableEq κ] in
/-- What is remembered of a call. -/
theorem observe_eq_some {since : List (Option Int)} {pool : State κ τ} [DecidableEq κ] {a : Nat}
    {start : Int} : (observe since pool)[a]? = some (some start) ↔
      ∃ acquire, pool.acquires[a]? = some acquire ∧ acquire.phase.isWaiting = true ∧
        (since[a]? = some (some start) ∨ ((since[a]?).getD none = none ∧
          pool.isBlocked acquire = true ∧ pool.now = start)) := by
  unfold observe
  rw [List.getElem?_mapIdx, Option.map_eq_some_iff]
  refine exists_congr fun acquire => and_congr_right fun _ => ?_
  -- Nothing is remembered of a call that waits no longer.
  cases acquire.phase.isWaiting with
  | false => simp
  | true =>
    rcases since[a]? with _ | _ | moment <;> cases pool.isBlocked acquire <;> simp

/-- A new pool has nobody to watch. -/
theorem watched_init (options : PoolOptions) : Watched options (init options : Timed κ τ) where
  -- There are no calls.
  lined := State.lined_init options
  alone := by simp [State.NoneBehind, init, State.init]
  known := by simp [init, State.init]
  timed := by simp [init]

/-- What a step must do for the timers to bound the time that calls are blocked. -/
structure Steady (options : PoolOptions) (s : Timed κ τ) (action : Action κ τ) : Prop where
  /-- No woken call parks again. -/
  once : s.pool.ParksOnce options action
  /-- Nobody gets queued behind a parked call of its key. -/
  unfollowed : s.pool.Unfollowed options action

/-- Whether a step leaves the timers to bound the time that calls are blocked can be checked. -/
instance (s : Timed κ τ) (action : Action κ τ) : Decidable (Steady options s action) :=
  decidable_of_iff (s.pool.ParksOnce options action ∧ s.pool.Unfollowed options action)
    ⟨fun ⟨once, unfollowed⟩ => ⟨once, unfollowed⟩, fun ⟨once, unfollowed⟩ => ⟨once, unfollowed⟩⟩

/-- A parked call that was parked on the same waiter before keeps its timer. -/
theorem Watched.timer_kept (watched : Watched options s) {action : Action κ τ} {pool : State κ τ}
    (punctual : s.pool.Punctual action) (stepped : s.pool.step options action = some pool)
    {a : AcquireId} {acquire : Acquire κ} {w : WaiterId} {start : Int}
    (before : s.pool.acquires[a]? = some acquire) (phase : acquire.phase = .parked w)
    (counted : s.since[a]? = some (some start))
    (same : ∀ waiter, pool.waiters[w]? = some waiter → waiter.promise = .pending →
      s.pool.waiters[w]? = some waiter) {count : Int} (finite : options.timeout = .ms count)
    (positive : 0 ≤ count) : pool.now ≤ start + count ∧ ∀ waiter, pool.waiters[w]? = some waiter →
      waiter.promise = .pending → waiter.timer = some (start + count) := by
  -- The waiter keeps its timer, and the clock does not pass it.
  obtain ⟨record, v, found, parked, timed⟩ := watched.timed a start counted
  cases before.symm.trans found
  cases phase.symm.trans parked
  obtain ⟨early, armed⟩ := timed count finite positive
  refine ⟨?_, fun waiter there awaited => armed waiter (same waiter there awaited) awaited⟩
  by_cases passing : ∃ now, action = .clock now
  · obtain ⟨now, rfl⟩ := passing
    cases stepped
    -- The clock stops at the timer of a waiter that is still pending.
    obtain ⟨-, due, fresh⟩ := punctual
    have parked := fresh acquire (List.mem_of_getElem? before) (by simp [phase, Phase.waiter])
    obtain ⟨v, awaits, queued⟩ := watched.lined.isParked_iff.mp parked
    obtain rfl : w = v := by simpa [phase, Phase.waiter] using awaits
    obtain ⟨waiter, there, awaited, -⟩ := watched.lined.waiting.sound.pending queued
    exact due waiter (List.mem_of_getElem? there) _ (armed waiter there awaited)
  · rw [(State.step_effect stepped).now watched.lined.core fun now same => passing ⟨now, same⟩]
    exact early

/-- After a step every parked call is counted: it was parked before, or has just parked. -/
theorem Watched.known_step (watched : Watched options s) {action : Action κ τ}
    {pool : State κ τ} (moved : s.pool.step options action = some pool) {a : AcquireId}
    {acquire : Acquire κ} {w : WaiterId} (read : pool.acquires[a]? = some acquire)
    (phase : acquire.phase = .parked w) :
    ∃ start, (observe s.since pool)[a]? = some (some start) := by
  have lined := watched.lined
  have later := State.lined_step lined moved
  have waits : acquire.phase.isWaiting = true := by rw [phase]; rfl
  have still (before : s.pool.acquires[a]? = some acquire) :
      ∃ start, (observe s.since pool)[a]? = some (some start) := by
    obtain ⟨start, counted⟩ := watched.known a acquire w before phase
    exact ⟨start, observe_eq_some.mpr ⟨acquire, read, waits, .inl counted⟩⟩
  cases State.line_of_step lined.core lined.waiting moved with
  | queued key cell next gate calls =>
    rcases Arena.getElem?_push_cases (calls ▸ read) with ⟨-, rfl⟩ | before
    · cases phase
    · exact still before
  | parked action b caller next continues parks called own left gate calls =>
    rcases Arena.getElem?_modify_cases (calls ▸ read) with ⟨-, old, -, rfl⟩ | ⟨-, before⟩
    · -- What is remembered of the call from before is kept.
      have parked : pool.isParked { old with phase := .parked s.pool.waiters.length } = true :=
        later.isParked_iff.mpr ⟨_, rfl, by simp [gate, Gate.park]⟩
      cases earlier : (s.since[a]?).getD none with
      | none =>
        exact ⟨pool.now, observe_eq_some.mpr ⟨_, read, waits,
          .inr ⟨earlier, by simp [State.isBlocked, parked], rfl⟩⟩⟩
      | some start =>
        refine ⟨start, observe_eq_some.mpr ⟨_, read, waits, .inl ?_⟩⟩
        cases there : s.since[a]? <;> simp_all
    · exact still before
  | settled action next stays settles =>
    rcases settles.calls a acquire read with before | ⟨out, -⟩
    · exact still before
    · simp [phase, Phase.lined] at out

/-- A call that is blocked still stays parked on the waiter whose timer was set for it. -/
theorem Watched.timed_kept (watched : Watched options s) {action : Action κ τ}
    {pool : State κ τ} (punctual : s.pool.Punctual action)
    (once : s.pool.ParksOnce options action) (moved : s.pool.step options action = some pool)
    {a : AcquireId} {acquire : Acquire κ} {start : Int} (read : pool.acquires[a]? = some acquire)
    (waits : acquire.phase.isWaiting = true) (counted : s.since[a]? = some (some start)) :
    ∃ acquire w, pool.acquires[a]? = some acquire ∧ acquire.phase = .parked w ∧
      ∀ count, options.timeout = .ms count → 0 ≤ count → pool.now ≤ start + count ∧
        ∀ waiter, pool.waiters[w]? = some waiter → waiter.promise = .pending →
          waiter.timer = some (start + count) := by
  have lined := watched.lined
  obtain ⟨record, w, found, phase, -⟩ := watched.timed a start counted
  have awaits : record.phase.waiter ≠ none := by simp [phase, Phase.waiter]
  cases State.line_of_step lined.core lined.waiting moved with
  | queued key cell next gate calls =>
    have there := Arena.getElem?_push_of_some
      (⟨key, cell, .queued ((s.pool.toKeyState.incPending key).tailOf key)⟩ : Acquire κ) found
    refine ⟨record, w, calls ▸ there, phase, fun count finite positive =>
      watched.timer_kept punctual moved found phase counted ?_ finite positive⟩
    intro waiter inside _
    rwa [gate] at inside
  | parked action b caller next continues parks called own left gate calls =>
    by_cases same : b = a
    · -- A woken call does not park again.
      subst same
      cases called.symm.trans found
      cases own awaits
      exact absurd parks once
    · refine ⟨record, w, ?_, phase, fun count finite positive =>
        watched.timer_kept punctual moved found phase counted ?_ finite positive⟩
      · rw [calls, Arena.getElem?_modify_other _ _ same, found]
      · intro waiter inside _
        rw [gate] at inside
        have less := lined.waiting.known record (List.mem_of_getElem? found) w
          (by simp [phase, Phase.waiter])
        rcases Arena.getElem?_push_cases inside with ⟨last, -⟩ | before
        · exact absurd (last ▸ less) (Nat.lt_irrefl _)
        · exact before
  | settled action next stays settles =>
    rcases settles.calls a acquire read with before | ⟨-, answered⟩
    · cases before.symm.trans found
      exact ⟨acquire, w, read, phase, fun count finite positive =>
        watched.timer_kept punctual moved found phase counted
          (fun waiter inside awaited => settles.gate.pending lined.waiting.sound inside awaited)
          finite positive⟩
    · -- A call that has its answer waits no longer.
      have answer := (answered record found awaits).2
      generalize acquire.phase = phase at answer waits
      cases phase <;> simp [Phase.isAnswer, Phase.isWaiting] at answer waits

/-- A call that is newly blocked has just parked, with a timer of its own. -/
theorem Watched.timed_fresh (watched : Watched options s) {action : Action κ τ}
    {pool : State κ τ} (moved : s.pool.step options action = some pool) (alone : pool.NoneBehind)
    {a : AcquireId} {acquire : Acquire κ} (read : pool.acquires[a]? = some acquire)
    (fresh : (s.since[a]?).getD none = none) (blocked : pool.isBlocked acquire = true) :
    ∃ acquire w, pool.acquires[a]? = some acquire ∧ acquire.phase = .parked w ∧
      ∀ count, options.timeout = .ms count → 0 ≤ count → pool.now ≤ pool.now + count ∧
        ∀ waiter, pool.waiters[w]? = some waiter → waiter.promise = .pending →
          waiter.timer = some (pool.now + count) := by
  have lined := watched.lined
  have later := State.lined_step lined moved
  -- Nobody is queued behind a parked call, so the call itself is parked.
  have parked : pool.isParked acquire = true := by
    simp only [State.isBlocked, Bool.or_eq_true, Bool.and_eq_true, List.any_eq_true,
      decide_eq_true_eq] at blocked
    rcases blocked with parked | ⟨queued, other, inside, same, stuck⟩
    · exact parked
    · simp [alone acquire (List.mem_of_getElem? read) queued other inside same] at stuck
  obtain ⟨w, awaits, queued⟩ := later.isParked_iff.mp parked
  have phase := Phase.waiter_eq_some.mp awaits
  -- And it was not parked before this step.
  have unknown : s.pool.acquires[a]? ≠ some acquire := by
    intro before
    obtain ⟨start, counted⟩ := watched.known a acquire w before phase
    simp [counted] at fresh
  cases State.line_of_step lined.core lined.waiting moved with
  | queued key cell next gate calls =>
    rcases Arena.getElem?_push_cases (calls ▸ read) with ⟨-, rfl⟩ | before
    · cases phase
    · exact absurd before unknown
  -- The call that parks arms its timer with the time of now.
  | parked action b caller next continues parks called own left gate calls =>
    rcases Arena.getElem?_modify_cases (calls ▸ read) with ⟨-, old, -, rfl⟩ | ⟨-, before⟩
    · cases phase
      have now : pool.now = s.pool.now :=
        (State.step_effect moved).now lined.core (by rintro now rfl; cases continues)
      refine ⟨_, _, read, rfl, fun count finite positive =>
        ⟨Int.le_add_of_nonneg_right positive, ?_⟩⟩
      intro waiter inside _
      rw [gate] at inside
      rcases Arena.getElem?_push_cases inside with ⟨-, rfl⟩ | before
      · simp [finite, positive, now]
      · exact absurd (List.getElem?_eq_some_iff.mp before).1 (Nat.lt_irrefl _)
    · exact absurd before unknown
  | settled action next stays settles =>
    rcases settles.calls a acquire read with before | ⟨out, -⟩
    · exact absurd before unknown
    · simp [phase, Phase.lined] at out

/-- A steady step at the right time keeps every blocked call on its timer. -/
theorem watched_step {action : Action κ τ} (watched : Watched options s)
    (punctual : s.pool.Punctual action) (steady : Steady options s action)
    (stepped : s.step options action = some next) : Watched options next := by
  obtain ⟨pool, moved, rfl⟩ := Option.map_eq_some_iff.mp stepped
  have alone := watched.lined.noneBehind_step watched.alone steady.unfollowed moved
  refine ⟨State.lined_step watched.lined moved, alone,
    fun a acquire w read phase => watched.known_step moved read phase,
    fun a start counted => ?_⟩
  -- Who is blocked after the step was blocked before, or has just parked.
  obtain ⟨acquire, read, waits, counted | ⟨fresh, blocked, rfl⟩⟩ := observe_eq_some.mp counted
  · exact watched.timed_kept punctual steady.once moved read waits counted
  · exact watched.timed_fresh moved alone read fresh blocked

/--
In every run whose clock passes no due timer, the timeout bounds the time that calls are blocked as
long as no woken call parks again and nobody gets queued behind a parked call of its key.
-/
theorem onTime_of_steady (options : PoolOptions) (actions : List (Action κ τ))
    (punctual : Runs.Guarded (step options) (fun s action => s.pool.Punctual action)
      (init options) actions)
    (steady : Runs.Guarded (step options) (Steady options) (init options) actions) :
    Runs.Throughout (step options) (OnTime options) (init options) actions := by
  -- Each blocked call has a timer that is not due yet.
  have kept := (punctual.both steady).throughout (Watched options)
    (fun s action next watched ⟨punctual, steady⟩ stepped =>
      watched_step watched punctual steady stepped) (watched_init options)
  refine kept.mono fun s watched count finite positive a start counted => ?_
  obtain ⟨acquire, w, -, -, timed⟩ := watched.timed a start counted
  have early := (timed count finite positive).1
  omega

/-- A call parks, and is granted a slot when a resource is released before its timer is due. -/
theorem onTime_of_steady_released :
    let options : PoolOptions := { max := 1, acquireTimeoutMs := some (.ms 10) }
    Runs.Throughout (step options) (OnTime options) (init options : Timed Nat Nat)
      [.acquire 7, .obtain 0, .create 0 .threw, .factoryCalled 0, .factorySettled 0 (some 70),
        .execSettled 0 (some 70), .deliver 0, .acquire 8, .obtain 1, .clock 5, .releaseHandle 0,
        .resume 1] :=
  -- The clock stands at 5 when the handle is released, and the timer is due at 10.
  onTime_of_steady _ _ (by decide) (by decide)

/-- A call queued behind a parked one of its key gets a timer only once that one has timed out. -/
theorem onTime_queued :
    let options : PoolOptions := { max := 1, acquireTimeoutMs := some (.ms 10) }
    let queued : List (Action Nat Nat) :=
      [.acquire 7, .obtain 0, .create 0 .threw, .factoryCalled 0, .factorySettled 0 (some 70),
        .execSettled 0 (some 70), .deliver 0, .acquire 8, .obtain 1, .acquire 8, .clock 10,
        .timeout 0, .resume 1, .deliver 1, .obtain 2, .clock 20]
    Runs.Guarded (step options) (fun s action => s.pool.Punctual action) (init options) queued ∧
      ¬ Runs.Throughout (step options) (OnTime options) (init options) queued := by
  -- The second call of the key has been blocked for twenty milliseconds in the end.
  refine ⟨by decide, fun all => ?_⟩
  have late := all.of_run rfl 10 rfl (by decide) 2 0 rfl
  exact absurd late (by decide)

end Timed

end RefPool
