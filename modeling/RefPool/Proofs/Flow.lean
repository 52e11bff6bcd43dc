import RefPool.Proofs.Core

/-! How each step moves the calls of `breaker.exec` and of the factory. -/

namespace RefPool.State

variable {κ τ : Type} [DecidableEq κ] {options : PoolOptions} {s next : State κ τ}

/-- What a step does to the execs and the factory calls. -/
inductive Flow (s next : State κ τ) : Action κ τ → Prop
  /-- Neither changes. -/
  | still (action : Action κ τ) (execs : next.execs = s.execs)
      (calls : next.factoryCalls = s.factoryCalls) : Flow s next action
  /-- A granted acquire calls `exec`. -/
  | started (a : AcquireId) (answer : BreakerMade) (key : κ)
      (execs : next.execs = s.execs ++ [⟨a, key, .pending⟩])
      (calls : next.factoryCalls = s.factoryCalls) : Flow s next (.create a answer)
  /-- A breaker calls the factory. -/
  | called (x : ExecId) (exec : Exec κ τ) (found : s.execs[x]? = some exec)
      (execs : next.execs = s.execs)
      (calls : next.factoryCalls = s.factoryCalls ++ [⟨x, .pending⟩]) :
      Flow s next (.factoryCalled x)
  /-- A factory call settles. -/
  | landed (c : FactoryId) (answer : Option τ) (call : FactoryCall τ)
      (found : s.factoryCalls[c]? = some call) (outstanding : call.outcome = .pending)
      (execs : next.execs = s.execs)
      (calls : next.factoryCalls =
        s.factoryCalls.modify c fun call => { call with outcome := .ofAnswer answer }) :
      Flow s next (.factorySettled c answer)
  /-- An exec settles. -/
  | finished (x : ExecId) (answer : Option τ) (exec : Exec κ τ)
      (found : s.execs[x]? = some exec) (outstanding : exec.outcome = .pending)
      (execs : next.execs =
        s.execs.modify x fun exec => { exec with outcome := .ofAnswer answer })
      (calls : next.factoryCalls = s.factoryCalls) : Flow s next (.execSettled x answer)

/-- Every step moves execs and factory calls in one of these ways. -/
theorem Effect.flow {action : Action κ τ} (wf : s.toStore.WellFormed)
    (effect : Effect options s action next) : Flow s next action := by
  -- Only five kinds of step touch the execs or the factory calls.
  cases effect with
  | released h handle next found holding effect =>
    exact .still _ effect.sameCalls.execs effect.sameCalls.factoryCalls
  | releasedKey key e next bound effect =>
    exact .still _ effect.sameCalls.execs effect.sameCalls.factoryCalls
  | drain => exact .still _ (sameCalls_drain wf).execs (sameCalls_drain wf).factoryCalls
  | stop =>
    have same := sameCalls_drain (s := s.setClosed.stopTimers) wf
    exact .still _ same.execs same.factoryCalls
  | sweep => exact .still _ (sameCalls_sweep wf).execs (sameCalls_sweep wf).factoryCalls
  | missed a acquire after next called phase turn absent effect =>
    exact .still _ effect.acts.execs effect.acts.factoryCalls
  | discarded a acquire live next called phase effect =>
    exact .still _ effect.acts.execs effect.acts.factoryCalls
  | resumed a acquire w waiter next called phase found woken effect =>
    exact .still _ effect.acts.execs effect.acts.factoryCalls
  | creating a acquire answer => exact .started a answer acquire.key rfl rfl
  | factoryCalled x exec found => exact .called x exec found rfl rfl
  | factorySettled c resource call found outstanding =>
    exact .landed c resource call found outstanding rfl rfl
  | execRejected x exec found outstanding => exact .finished x none exec found outstanding rfl rfl
  | execLate x exec resource found outstanding | inserted x exec resource found outstanding =>
    exact .finished x (some resource) exec found outstanding rfl rfl
  | shared | queued | releasedAgain | releasedNone | start | gcKeyState | emitStats | timeout
  | clock | validating | returned | abandoned | breakerless | delivered | failed | drained
  | unvalidated | passed | refuted | disposeSettled | lateDisposeSettled | breakerChanged =>
    exact .still _ rfl rfl

end RefPool.State
