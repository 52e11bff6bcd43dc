import RefPool.Model.Drain

/-! Everything that can happen to a pool, one uninterrupted piece of JavaScript at a time. -/

namespace RefPool

/-- What runs next: a call of the interface, a timer, a promise reaction or a callback settling. -/
inductive Action (κ τ : Type) where
  /-- A caller calls `acquire`. -/
  | acquire (key : κ)
  /-- A holder calls the `release` of its handle. -/
  | releaseHandle (handle : HandleId)
  /-- A caller calls `release` with a key. -/
  | release (key : κ)
  | drain
  | stop
  | start
  /-- The sweep interval fires. -/
  | sweep
  /-- The maintenance interval fires. -/
  | gcKeyState
  /-- The stats interval fires. -/
  | emitStats
  /-- The timer of a parked waiter fires. -/
  | timeout (waiter : WaiterId)
  /-- Time is read differently from now on. -/
  | clock (now : Int)
  /-- The mutex reaches a queued call, whose `obtain` starts. -/
  | obtain (acquire : AcquireId)
  /-- `obtain` continues after the disposal of an entry that failed validation. -/
  | discarded (acquire : AcquireId)
  /-- `acquireSlot` continues after its waiter's promise settled. -/
  | resume (acquire : AcquireId)
  /-- `obtain` continues after a slot was granted. -/
  | create (acquire : AcquireId) (answer : BreakerMade)
  /-- The reactions to a settled `obtain` run. -/
  | deliver (acquire : AcquireId)
  /-- A `drain` continues after all its waits resolved. -/
  | drained (drain : DrainId)
  /-- `options.validate` settles, `none` being a rejection. -/
  | validated (acquire : AcquireId) (verdict : Option Bool)
  /-- A breaker calls the factory it was given. -/
  | factoryCalled (exec : ExecId)
  /-- `options.factory` settles, `none` being a rejection. -/
  | factorySettled (call : FactoryId) (resource : Option τ)
  /-- `breaker.exec` settles, `none` being a rejection. -/
  | execSettled (exec : ExecId) (resource : Option τ)
  /-- The `options.dispose` call of an entry settles, either way. -/
  | disposeSettled (entry : EntryId)
  /-- The `options.dispose` call of a resource created too late settles, either way. -/
  | lateDisposeSettled (acquire : AcquireId)
  /-- A breaker enters a state. -/
  | breakerChanged (breaker : BreakerId) (state : BreakerState)

/-- Whether an action is a reaction of the pool itself rather than an event from outside. -/
def Action.isReaction {κ τ : Type} : Action κ τ → Bool
  | .obtain _ | .discarded _ | .resume _ | .create _ _ | .deliver _ | .drained _ => true
  | _ => false

/-- The settled form of an answer. -/
def Outcome.ofAnswer {τ : Type} : Option τ → Outcome τ
  | none => .rejected
  | some value => .fulfilled value

namespace State

variable {κ τ : Type} [DecidableEq κ]

/-- Whether the promise a queued call was chained behind has run its reactions. -/
def turnOf (s : State κ τ) (after : Option AcquireId) : Bool :=
  match after with
  | none => true
  | some a =>
    match s.acquires[a]? with
    | none => false
    | some acquire =>
      -- The tail of a call resolves together with the call, fulfilled or not.
      match acquire.phase with
      | .fulfilled _ | .rejected _ => true
      | _ => false

/-- The effect of an action, where it can happen. -/
def step (options : PoolOptions) (s : State κ τ) : Action κ τ → Option (State κ τ)
  | .acquire key => some (s.acquire key)
  | .releaseHandle h => (s.handles[h]?).map fun handle => s.releaseHandle h handle
  | .release key => some (s.release key)
  | .drain => some s.drain
  | .stop => some s.stop
  | .start => some (s.start options)
  -- An interval fires only while it is armed.
  | .sweep => if s.sweepTimer then some (s.sweep options) else none
  | .gcKeyState => if s.mutexTimer then some (s.gcKeyState options) else none
  | .emitStats => if s.statsTimer then some s.emitStats else none
  | .timeout w =>
    (s.waiters[w]?).bind fun waiter =>
      -- A settled waiter has no timer left to fire.
      if waiter.timer.any fun deadline => deadline ≤ s.now then
        some { s with toGate := s.toGate.settleWaiter w (.rejected .acquireTimeout) }
      else none
  | .clock now => some { s with now }
  -- Reactions of the pool run once the promise they are on has settled.
  | .obtain a =>
    (s.acquires[a]?).bind fun acquire =>
      match acquire.phase with
      | .queued after => if s.turnOf after then some (s.obtain options a acquire.key) else none
      | _ => none
  | .discarded a =>
    (s.acquires[a]?).bind fun acquire =>
      match acquire.phase with
      | .discarding live =>
        if s.waitResolved (.disposing live) then some (s.obtainMissing options a acquire.key)
        else none
      | _ => none
  | .resume a =>
    (s.acquires[a]?).bind fun acquire =>
      match acquire.phase with
      | .parked w =>
        (s.waiters[w]?).bind fun waiter =>
          if waiter.promise = .pending then none else some (s.resume options a waiter.promise)
      | _ => none
  | .create a answer =>
    (s.acquires[a]?).bind fun acquire =>
      match acquire.phase with
      | .granted => some (s.create options a acquire.key answer)
      | _ => none
  | .deliver a =>
    (s.acquires[a]?).bind fun acquire =>
      match acquire.phase with
      | .returned e => some (s.deliver a acquire (.ok e))
      | .threw error => some (s.deliver a acquire (.error error))
      | _ => none
  | .drained d =>
    (s.drains[d]?).bind fun call =>
      if !call.fulfilled ∧ call.waits.all s.waitResolved then some (s.drained d) else none
  -- Callbacks settle whenever they like, but only while they are awaited.
  | .validated a verdict =>
    (s.acquires[a]?).bind fun acquire =>
      match acquire.phase with
      | .validating live => some (s.validated a live verdict)
      | _ => none
  -- A breaker may call the factory at any time, and as often as it likes.
  | .factoryCalled x =>
    (s.execs[x]?).map fun _ =>
      { s with factoryCalls := s.factoryCalls ++ [{ exec := x, outcome := .pending }] }
  | .factorySettled c resource =>
    (s.factoryCalls[c]?).bind fun call =>
      match call.outcome with
      | .pending => some
        { s with
          factoryCalls := s.factoryCalls.modify c fun call =>
            { call with outcome := .ofAnswer resource } }
      | _ => none
  | .execSettled x resource =>
    (s.execs[x]?).bind fun exec =>
      match exec.outcome with
      | .pending =>
        -- The settlement and what `obtain` goes on to do are one step.
        let s :=
          { s with
            execs := s.execs.modify x fun exec => { exec with outcome := .ofAnswer resource } }
        some (s.created exec.acquire exec.key resource)
      | _ => none
  | .disposeSettled e =>
    (s.heap[e]?).bind fun entry =>
      if entry.disposing ∧ !entry.disposed then some (s.finishDispose options e entry) else none
  | .lateDisposeSettled a =>
    (s.acquires[a]?).bind fun acquire =>
      match acquire.phase with
      | .closing => some (s.setPhase a (.threw .poolClosed))
      | _ => none
  | .breakerChanged b state =>
    (s.objects[b]?).map fun breaker => s.breakerChanged b breaker state

/-- No step of the pool is runnable: only events from outside can change the state. -/
def Quiescent (options : PoolOptions) (s : State κ τ) : Prop :=
  ∀ action : Action κ τ, action.isReaction → s.step options action = none

end State

end RefPool
