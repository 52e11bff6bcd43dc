import RefPool.Model.Warm

/-! `withResource`: a handle acquired around a function, and released when the function is done. -/

namespace RefPool

/-- Where a call of `withResource` stands. -/
inductive WithResourcePhase (τ ρ : Type) where
  /-- It awaits its call of `acquire`. -/
  | acquiring
  /-- It awaits `fn`, which it called with the resource of its handle. -/
  | running (handle : HandleId) (resource : τ)
  /-- It released its handle, and settled as `fn` did, `none` being an exception or a rejection. -/
  | settled (handle : HandleId) (result : Option ρ)
  /-- Its call of `acquire` rejected. -/
  | rejected (error : PoolError)
  deriving DecidableEq

/-- A call of `withResource`. -/
structure WithResource (κ τ ρ : Type) where
  key : κ
  acquire : AcquireId
  phase : WithResourcePhase τ ρ
  deriving DecidableEq

/-- A pool with the calls of `withResource` on it. -/
structure RefPoolService (κ τ ρ : Type) where
  pool : State κ τ
  calls : List (WithResource κ τ ρ)

/-- What happens next to a pool that is used through `withResource`. -/
inductive ServiceAction (κ τ ρ : Type) where
  /-- Anything that happens to the pool by itself or through others. -/
  | pool (action : Action κ τ)
  /-- `withResource` is called. -/
  | withResource (key : κ)
  /-- A call of `withResource` continues after its call of `acquire` has settled. -/
  | acquired (call : Nat)
  /-- `fn` returns, throws or settles, `none` being an exception or a rejection. -/
  | settled (call : Nat) (result : Option ρ)

namespace RefPoolService

variable {κ τ ρ : Type} [DecidableEq κ]

/-- A service on a new pool. -/
def init (options : PoolOptions) : RefPoolService κ τ ρ := ⟨.init options, []⟩

omit [DecidableEq κ] in
/-- Whether a handle is out to a call of `withResource`, which keeps it to itself. -/
def owns (s : RefPoolService κ τ ρ) (h : HandleId) : Bool :=
  s.calls.any fun call =>
    match call.phase with
    | .running handle _ | .settled handle _ => handle = h
    | .acquiring => s.pool.acquires[call.acquire]?.any fun acquire => acquire.phase = .fulfilled h
    | .rejected _ => false

/-- `withResource` up to its first await. -/
def withResource (s : RefPoolService κ τ ρ) (key : κ) : RefPoolService κ τ ρ :=
  { pool := s.pool.acquire key
    calls := s.calls ++ [{ key, acquire := s.pool.acquires.length, phase := .acquiring }] }

omit [DecidableEq κ] in
/-- A call of `withResource` goes on to a phase. -/
def setPhase (s : RefPoolService κ τ ρ) (i : Nat) (phase : WithResourcePhase τ ρ) :
    RefPoolService κ τ ρ :=
  { s with calls := s.calls.modify i fun call => { call with phase } }

omit [DecidableEq κ] in
/-- `withResource` after its call of `acquire` has settled, up to its next await. -/
def acquired (s : RefPoolService κ τ ρ) (i : Nat) :
    Except PoolError HandleId → Option (RefPoolService κ τ ρ)
  | .error error => some (s.setPhase i (.rejected error))
  | .ok h =>
    -- The handle carries the resource of its entry.
    (s.pool.handles[h]?).bind fun handle =>
      (s.pool.heap[handle.entry]?).map fun entry => s.setPhase i (.running h entry.resource)

/-- The `finally` of `withResource`: the handle is released whatever `fn` came to. -/
def settled (s : RefPoolService κ τ ρ) (i : Nat) (h : HandleId) (handle : Handle)
    (result : Option ρ) : RefPoolService κ τ ρ :=
  { s with pool := s.pool.releaseHandle h handle }.setPhase i (.settled h result)

/-- The effect of an action, where it can happen. -/
def step (options : PoolOptions) (s : RefPoolService κ τ ρ) :
    ServiceAction κ τ ρ → Option (RefPoolService κ τ ρ)
  | .pool action =>
    -- Nobody else has the handles that `withResource` was given.
    if (match action with
      | .releaseHandle h => s.owns h
      | _ => false) then none
    else (s.pool.step options action).map fun pool => { s with pool }
  | .withResource key => some (s.withResource key)
  | .acquired i =>
    (s.calls[i]?).bind fun call =>
      match call.phase with
      | .acquiring =>
        (s.pool.acquires[call.acquire]?).bind fun acquire =>
          acquire.phase.settlement.bind (s.acquired i)
      | .running _ _ | .settled _ _ | .rejected _ => none
  | .settled i result =>
    (s.calls[i]?).bind fun call =>
      match call.phase with
      | .running h _ => (s.pool.handles[h]?).map fun handle => s.settled i h handle result
      | .acquiring | .settled _ _ | .rejected _ => none

end RefPoolService

end RefPool
