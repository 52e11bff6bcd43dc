import RefPool.Model.Keys

/-! `runExclusive` by itself, cut at every promise reaction, with whatever bodies it is given. -/

namespace RefPool

/-- Where a call of `runExclusive` stands. The body is the function `fn` it was given. -/
inductive ExclusivePhase (ν ε : Type) where
  /-- `fn` is to be called when the tail that the call found has resolved. -/
  | chained (after : Option AcquireId)
  /-- `fn` was called, and its promise is pending. -/
  | running
  /-- The promise of `fn` has settled, and `result` is about to follow it. -/
  | finished (result : Except ε ν)
  /-- `result` has settled, and both reactions to it are queued. -/
  | concluded (result : Except ε ν)
  /-- The tail made of `result` has resolved. -/
  | released (result : Except ε ν)
  /-- `settled` has run, and the caller is next to learn of the result. -/
  | settled (result : Except ε ν)

namespace ExclusivePhase

variable {ν ε : Type}

/-- Whether the tail made by a call has resolved. -/
def tailResolved : ExclusivePhase ν ε → Bool
  | .released _ | .settled _ => true
  | .chained _ | .running | .finished _ | .concluded _ => false

/-- Whether a call waits for the tail made by another. -/
def isBehind (phase : ExclusivePhase ν ε) (a : AcquireId) : Bool :=
  match phase with
  | .chained after => after = some a
  | _ => false

/-- The phase after the tail has resolved. -/
def release : ExclusivePhase ν ε → ExclusivePhase ν ε
  | .concluded result => .released result
  | phase => phase

/-- The phase after `settled` has run. -/
def settle : ExclusivePhase ν ε → ExclusivePhase ν ε
  | .released result => .settled result
  | phase => phase

end ExclusivePhase

/-- A call of `runExclusive`: its key, the cell it was chained on, and where it stands. -/
structure ExclusiveCall (κ ν ε : Type) where
  key : κ
  cell : Option CellId
  phase : ExclusivePhase ν ε

/-- A promise reaction in the queue of the event loop. -/
inductive Microtask where
  /-- A resolved tail calls the `fn` of the call chained on it. -/
  | start (call : AcquireId)
  /-- A settled `result` resolves the tail made of it. -/
  | release (call : AcquireId)
  /-- A settled `result` runs `settled`. -/
  | settle (call : AcquireId)
  deriving DecidableEq, Repr

/-- What an observer of the bodies sees. -/
inductive BodyEvent where
  | began (call : AcquireId)
  | ended (call : AcquireId)
  deriving DecidableEq, Repr

/-- The mutexes with the calls on them, and the reactions that are queued. -/
structure ExclusiveSystem (κ ν ε : Type) extends KeyState κ where
  calls : List (ExclusiveCall κ ν ε)
  /-- The reactions queued, the next one first. -/
  microtasks : List Microtask
  /-- When bodies began and ended, in order. -/
  log : List BodyEvent
  now : Int

/-- What can happen next. -/
inductive ExclusiveAction (κ ν ε : Type) where
  /-- A caller calls `runExclusive`. -/
  | call (key : κ)
  /-- The first of the queued reactions runs. -/
  | microtask
  /-- The promise of a body settles. -/
  | finish (call : AcquireId) (result : Except ε ν)
  /-- `result` takes over how the promise of the body has settled. -/
  | follow (call : AcquireId)
  /-- The maintenance interval fires. -/
  | gcKeyState
  /-- Time is read differently from now on. -/
  | clock (now : Int)

/-- Whether an action moves a call on rather than adding one or leaving them all alone. -/
def ExclusiveAction.isMove {κ ν ε : Type} : ExclusiveAction κ ν ε → Bool
  | .microtask | .finish _ _ | .follow _ => true
  | .call _ | .gcKeyState | .clock _ => false

namespace ExclusiveSystem

variable {κ ν ε : Type} [DecidableEq κ]

/-- A new pool has no mutexes, and no calls on them. -/
def init : ExclusiveSystem κ ν ε :=
  { toKeyState := .empty, calls := [], microtasks := [], log := [], now := 0 }

/-- Whether the promise a call is chained on has resolved: a fresh cell comes with one that has. -/
def tailResolved (s : ExclusiveSystem κ ν ε) (after : Option AcquireId) : Bool :=
  match after with
  | none => true
  | some a => (s.calls[a]?).any fun call => call.phase.tailResolved

/-- The calls that wait for the tail made by another, in the order they were chained on it. -/
def behind (s : ExclusiveSystem κ ν ε) (a : AcquireId) : List AcquireId :=
  (List.range s.calls.length).filter fun b => (s.calls[b]?).any fun call => call.phase.isBehind a

/-- Move a call on. -/
def setPhase (s : ExclusiveSystem κ ν ε) (a : AcquireId)
    (move : ExclusivePhase ν ε → ExclusivePhase ν ε) : ExclusiveSystem κ ν ε :=
  { s with calls := s.calls.modify a fun call => { call with phase := move call.phase } }

/-- Chain a call: where the tail has resolved already, its reaction is queued at once. -/
def runExclusive (s : ExclusiveSystem κ ν ε) (key : κ) : ExclusiveSystem κ ν ε :=
  let after := s.toKeyState.tailOf key
  let keys := s.toKeyState.runExclusive key s.calls.length s.now
  { s with
    toKeyState := keys
    calls := s.calls ++ [{ key, cell := keys.mutexes.get? key, phase := .chained after }]
    microtasks := s.microtasks ++ if s.tailResolved after then [.start s.calls.length] else [] }

/-- Run a reaction. -/
def perform (s : ExclusiveSystem κ ν ε) : Microtask → ExclusiveSystem κ ν ε
  | .start a => { s.setPhase a fun _ => .running with log := s.log ++ [.began a] }
  -- Whoever is chained on the tail has its reaction queued, behind those queued already.
  | .release a =>
    { s.setPhase a .release with microtasks := s.microtasks ++ (s.behind a).map .start }
  | .settle a =>
    match s.calls[a]? with
    | none => s
    | some call =>
      match call.cell with
      | none => s
      | some c =>
        { s.setPhase a .settle with toKeyState := s.toKeyState.settled call.key c s.now }

/-- The effect of an action, where it can happen. -/
def step (mutexGcMs : Option Int) (s : ExclusiveSystem κ ν ε) :
    ExclusiveAction κ ν ε → Option (ExclusiveSystem κ ν ε)
  | .call key => some (s.runExclusive key)
  | .microtask =>
    match s.microtasks with
    | [] => none
    | job :: rest => some ({ s with microtasks := rest }.perform job)
  -- A body settles whenever it likes, and only once.
  | .finish a result =>
    (s.calls[a]?).bind fun call =>
      match call.phase with
      | .running => some { s.setPhase a fun _ => .finished result with log := s.log ++ [.ended a] }
      | _ => none
  -- It takes a few ticks for a promise to follow another.
  | .follow a =>
    (s.calls[a]?).bind fun call =>
      match call.phase with
      | .finished result => some
        { s.setPhase a fun _ => .concluded result with
          -- The reaction that makes the new tail was registered before `settled`.
          microtasks := s.microtasks ++ [.release a, .settle a] }
      | _ => none
  | .gcKeyState => some <|
    match mutexGcMs with
    | none => s
    | some age =>
      if age = 0 then s else { s with toKeyState := s.toKeyState.gcMutexes (s.now - age) }
  | .clock now => some { s with now }

end ExclusiveSystem

end RefPool
