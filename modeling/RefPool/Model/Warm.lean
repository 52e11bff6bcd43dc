import RefPool.Model.Step

/-! `warm`: workers that take keys off one queue, and acquire and release the entries of each. -/

namespace RefPool

/-- Which keys to create ahead. -/
inductive PrewarmKeys (κ : Type) where
  | listed (keys : List κ)
  /-- A function is called for the keys, and what it returns is awaited. -/
  | computed
  deriving DecidableEq

/-- Describes which keys to pre-create, and how many holders per key, on `warm`. -/
structure PrewarmStrategy (κ : Type) where
  keys : PrewarmKeys κ
  perKey : Option Int := none
  /-- Bound on keys warmed in parallel. -/
  concurrency : Option Int := none
  deriving DecidableEq

/-- Where a worker of `warm` stands. -/
inductive WarmWorker (κ : Type) where
  /-- `warmKey` awaits a call of `acquire`, with the handles it has by then. -/
  | acquiring (key : κ) (handles : List HandleId) (acquire : AcquireId)
  /-- `warmKey` is done with its key. -/
  | warmed
  /-- The worker found the queue empty. -/
  | finished

/-- Whether a worker has returned, so that its promise is fulfilled. -/
def WarmWorker.isFinished {κ : Type} : WarmWorker κ → Bool
  | .finished => true
  | .acquiring _ _ _ | .warmed => false

/-- Where the call of `warm` stands. -/
inductive WarmPhase (κ : Type) where
  /-- `warm` has not been called. -/
  | idle
  /-- `warm` awaits the keys. -/
  | listing (strategy : PrewarmStrategy κ)
  /-- `warm` awaits its workers. -/
  | running
  | fulfilled
  | rejected
  deriving DecidableEq

/-- What a finished call of `warmKey` came to. -/
structure Warmed (κ : Type) where
  key : κ
  handles : List HandleId
  /-- What the call of `acquire` rejected with that ended it early. -/
  error : Option PoolError

/-- A pool with a call of `warm`, and a record of what the call has done. -/
structure Warming (κ τ : Type) where
  pool : State κ τ
  phase : WarmPhase κ
  /-- The keys that the strategy lists. -/
  keys : List κ
  perKey : Int
  concurrency : Int
  queue : List κ
  workers : List (WarmWorker κ)
  /-- The keys taken off the queue so far. -/
  started : List κ
  /-- The calls of `warmKey` that have ended. -/
  warmed : List (Warmed κ)
  /-- The calls of `acquire` so far. -/
  asked : List AcquireId
  /-- The handles whose `release` was called, once for each call. -/
  releases : List HandleId

/-- What happens next to a pool that is warmed. -/
inductive WarmAction (κ τ : Type) where
  /-- Anything that happens to the pool by itself or through others. -/
  | pool (action : Action κ τ)
  /-- `warm` is called, with a strategy or without. -/
  | warm (strategy : Option (PrewarmStrategy κ))
  /-- The function of the strategy answers, `none` being an exception or a rejection. -/
  | listed (keys : Option (List κ))
  /-- `warmKey` continues after its call of `acquire` has settled. -/
  | acquired (worker : Nat)
  /-- A worker continues after `warmKey`. -/
  | next (worker : Nat)
  /-- All workers have finished, and `warm` fulfils. -/
  | fulfil

/-- What the promise returned by a call of `acquire` has settled with. -/
def Phase.settlement : Phase → Option (Except PoolError HandleId)
  | .fulfilled h => some (.ok h)
  | .rejected error => some (.error error)
  | .queued _ | .validating _ | .discarding _ | .parked _ | .granted | .creating _ | .closing
  | .returned _ | .threw _ => none

namespace Warming

variable {κ τ : Type} [DecidableEq κ]

/-- A new pool, on which `warm` has not been called. -/
def init (options : PoolOptions) : Warming κ τ :=
  { pool := .init options, phase := .idle, keys := [], perKey := 1, concurrency := 1, queue := []
    workers := [], started := [], warmed := [], asked := [], releases := [] }

/-- Whether a handle is one that `warm` acquired, which keeps it to itself. -/
def owns (s : Warming κ τ) (h : HandleId) : Bool :=
  s.asked.any fun a => s.pool.acquires[a]?.any fun acquire => acquire.phase = .fulfilled h

/-- Whether an action is out of reach of others: nobody else has the handles of `warm`. -/
def withholds (s : Warming κ τ) : Action κ τ → Bool
  | .releaseHandle h => s.owns h
  | _ => false

/-- `warmKey` calls `acquire`, and awaits the call with the handles it has. -/
def ask (s : Warming κ τ) (key : κ) (handles : List HandleId) : WarmWorker κ × Warming κ τ :=
  (.acquiring key handles s.pool.acquires.length,
    { s with
      pool := s.pool.acquire key
      asked := s.asked ++ [s.pool.acquires.length] })

/-- A turn of a worker's loop, up to its next await. -/
def take (s : Warming κ τ) : WarmWorker κ × Warming κ τ :=
  match s.queue with
  | [] => (.finished, s)
  -- As `perKey` is positive, `warmKey` begins with a call of `acquire`.
  | key :: rest => { s with queue := rest, started := s.started ++ [key] }.ask key []

/-- A worker goes on to where it awaits next. -/
def setWorker (s : Warming κ τ) (w : Nat) (worker : WarmWorker κ) : Warming κ τ :=
  { s with workers := s.workers.modify w fun _ => worker }

/-- Start workers one after the other, each up to its first await. -/
def startWorkers (s : Warming κ τ) : Nat → Warming κ τ
  | 0 => s
  | count + 1 =>
    let s : Warming κ τ := { s.take.2 with workers := s.take.2.workers ++ [s.take.1] }
    s.startWorkers count

/-- `warm` once it has the keys. -/
def run (s : Warming κ τ) (strategy : PrewarmStrategy κ) (keys : List κ) : Warming κ τ :=
  let concurrency := max 1 (strategy.concurrency.getD 8)
  let s : Warming κ τ :=
    { s with
      phase := .running, keys, perKey := max 1 (strategy.perKey.getD 1), concurrency
      -- The workers share a copy of the list.
      queue := keys }
  s.startWorkers (min concurrency keys.length).toNat

/-- `warm` up to its first await. -/
def warm (s : Warming κ τ) : Option (PrewarmStrategy κ) → Warming κ τ
  | none => { s with phase := .fulfilled }
  | some strategy =>
    match strategy.keys with
    | .listed keys => s.run strategy keys
    | .computed => { s with phase := .listing strategy }

/-- Call the `release` of some handles, one after the other. -/
def releaseAll (pool : State κ τ) (handles : List HandleId) : State κ τ :=
  handles.foldl
    (fun pool h =>
      match pool.handles[h]? with
      | none => pool
      | some handle => pool.releaseHandle h handle)
    pool

/-- The `finally` of `warmKey`: whatever it managed to acquire is released. -/
def conclude (s : Warming κ τ) (w : Nat) (key : κ) (handles : List HandleId)
    (error : Option PoolError) : Warming κ τ :=
  let s : Warming κ τ :=
    { s with
      pool := releaseAll s.pool handles
      releases := s.releases ++ handles
      warmed := s.warmed ++ [{ key, handles, error : Warmed κ }] }
  s.setWorker w .warmed

/-- `warmKey` after its call of `acquire` has settled. -/
def acquired (s : Warming κ τ) (w : Nat) (key : κ) (handles : List HandleId) :
    Except PoolError HandleId → Warming κ τ
  -- The error is logged, and goes no further.
  | .error error => s.conclude w key handles (some error)
  | .ok h =>
    let handles := handles ++ [h]
    if handles.length < s.perKey then (s.ask key handles).2.setWorker w (s.ask key handles).1
    else s.conclude w key handles none

/-- The effect of an action, where it can happen. -/
def step (options : PoolOptions) (prewarm : Option (PrewarmStrategy κ)) (s : Warming κ τ) :
    WarmAction κ τ → Option (Warming κ τ)
  | .pool action =>
    if s.withholds action then none
    else (s.pool.step options action).map fun pool => { s with pool }
  | .warm strategy =>
    match s.phase with
    -- The strategy of the options is the default.
    | .idle => some (s.warm (strategy.or prewarm))
    | _ => none
  | .listed answer =>
    match s.phase with
    | .listing strategy =>
      match answer with
      | none => some { s with phase := .rejected }
      | some keys => some (s.run strategy keys)
    | _ => none
  | .acquired w =>
    (s.workers[w]?).bind fun worker =>
      match worker with
      | .acquiring key handles a =>
        (s.pool.acquires[a]?).bind fun acquire =>
          acquire.phase.settlement.map (s.acquired w key handles)
      | .warmed | .finished => none
  | .next w =>
    (s.workers[w]?).bind fun worker =>
      match worker with
      | .warmed => some (s.take.2.setWorker w s.take.1)
      | .acquiring _ _ _ | .finished => none
  | .fulfil =>
    match s.phase with
    | .running =>
      if s.workers.all WarmWorker.isFinished then some { s with phase := .fulfilled } else none
    | _ => none

end Warming

end RefPool
