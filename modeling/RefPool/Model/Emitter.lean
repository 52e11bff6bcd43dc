import RefPool.Model.Types
import RefPool.Lib.OrderedSet

/-! `TypedEventEmitter`, with the calls of `emit` in progress on it. -/

namespace RefPool

/-- The `type` of an event. -/
inductive PoolEventType where
  | acquire
  | release
  | create
  | dispose
  | evict
  | idleSweep
  | breakerOpen
  | breakerClose
  | breakerHalfOpen
  | drainStart
  | drainComplete
  | orphanResurrect
  | stats
  deriving DecidableEq, Repr

/-- The type of an event. -/
def PoolEvent.type {κ : Type} : PoolEvent κ → PoolEventType
  | .acquire _ _ => .acquire
  | .release _ _ => .release
  | .create _ => .create
  | .dispose _ => .dispose
  | .evict _ _ => .evict
  | .idleSweep _ => .idleSweep
  | .breakerOpen _ => .breakerOpen
  | .breakerClose _ => .breakerClose
  | .breakerHalfOpen _ => .breakerHalfOpen
  | .drainStart => .drainStart
  | .drainComplete => .drainComplete
  | .orphanResurrect _ => .orphanResurrect
  | .stats _ => .stats

/-- The identity of a listener function. -/
abbrev ListenerId := Nat

/-- An event emitter keyed by the type of the event. -/
structure TypedEventEmitter where
  listeners : OrderedMap PoolEventType (OrderedSet ListenerId)

namespace TypedEventEmitter

/-- An emitter as its constructor leaves it. -/
def new : TypedEventEmitter := ⟨.empty⟩

/-- Register a listener for a type. -/
def on (emitter : TypedEventEmitter) (type : PoolEventType) (listener : ListenerId) :
    TypedEventEmitter :=
  -- A type without a set is given one.
  let set := (emitter.listeners.get? type).getD .empty
  ⟨emitter.listeners.set type (set.add listener)⟩

/-- Unregister a listener for a type, as the function that `on` returns does. -/
def off (emitter : TypedEventEmitter) (type : PoolEventType) (listener : ListenerId) :
    TypedEventEmitter :=
  match emitter.listeners.get? type with
  | none => emitter
  -- A set that becomes empty stays in the map.
  | some set => ⟨emitter.listeners.set type (set.delete listener)⟩

/-- Unregister all listeners. -/
def removeAll (_ : TypedEventEmitter) : TypedEventEmitter := ⟨.empty⟩

/-- The listeners that a call of `emit` goes through: those there are when it is made. -/
def snapshot (emitter : TypedEventEmitter) (type : PoolEventType) : List ListenerId :=
  match emitter.listeners.get? type with
  | none => []
  | some set => set.members

end TypedEventEmitter

/-- A call of `emit` that has not returned. -/
structure Emission (κ : Type) where
  /-- Its number in the order of the calls. -/
  id : Nat
  event : PoolEvent κ
  /-- The listeners still to be called. -/
  rest : List ListenerId
  /-- Whether the listener called last is still running. -/
  running : Bool

/-- How the call of a listener ends. -/
inductive ListenerEnd where
  | returned
  /-- It throws, and the error sink takes the error. -/
  | threw
  /-- It throws, and so does the error sink. -/
  | sinkThrew
  deriving DecidableEq, Repr

/-- An emitter with the calls on it. -/
structure EmitterSystem (κ : Type) where
  emitter : TypedEventEmitter
  /-- The calls of `emit` in progress, the innermost first. -/
  emissions : List (Emission κ)
  /-- The events of all calls of `emit` so far, in the order of the calls. -/
  emitted : List (PoolEvent κ)
  /-- The calls of listeners so far, each with the number of its emission. -/
  calls : List (Nat × ListenerId)
  /-- The types that the error sink was told of so far. -/
  errors : List PoolEventType

/-- What can happen to an emitter next. -/
inductive EmitterAction (κ : Type) where
  | on (type : PoolEventType) (listener : ListenerId)
  | off (type : PoolEventType) (listener : ListenerId)
  | removeAll
  | emit (event : PoolEvent κ)
  /-- The innermost `emit` calls its next listener. -/
  | call
  /-- The listener called last comes to its end. -/
  | ended (how : ListenerEnd)
  /-- The innermost `emit` returns. -/
  | finish

namespace EmitterSystem

variable {κ : Type}

/-- A new emitter, with nothing in progress on it. -/
def init : EmitterSystem κ := ⟨.new, [], [], [], []⟩

/-- Whether code outside the emitter is running: that of a listener, or that of nobody's `emit`. -/
def outside (s : EmitterSystem κ) : Bool :=
  match s.emissions with
  | [] => true
  | emission :: _ => emission.running

/-- The effect of an action, where it can happen. -/
def step (s : EmitterSystem κ) : EmitterAction κ → Option (EmitterSystem κ)
  -- A listener may use the emitter like everybody else.
  | .on type listener =>
    if s.outside then some { s with emitter := s.emitter.on type listener } else none
  | .off type listener =>
    if s.outside then some { s with emitter := s.emitter.off type listener } else none
  | .removeAll => if s.outside then some { s with emitter := s.emitter.removeAll } else none
  | .emit event =>
    if s.outside then
      some
        { s with
          emitted := s.emitted ++ [event]
          emissions :=
            { id := s.emitted.length, event, rest := s.emitter.snapshot event.type
              running := false } :: s.emissions }
    else none
  | .call =>
    match s.emissions with
    | ⟨id, event, listener :: rest, false⟩ :: outer =>
      some
        { s with
          calls := s.calls ++ [(id, listener)]
          emissions := ⟨id, event, rest, true⟩ :: outer }
    | _ => none
  | .ended how =>
    match s.emissions with
    | ⟨id, event, rest, true⟩ :: outer =>
      match how with
      | .returned => some { s with emissions := ⟨id, event, rest, false⟩ :: outer }
      | .threw =>
        some
          { s with
            emissions := ⟨id, event, rest, false⟩ :: outer, errors := s.errors ++ [event.type] }
      -- The exception leaves `emit`, and the rest of the listeners are not called.
      | .sinkThrew => some { s with emissions := outer, errors := s.errors ++ [event.type] }
    | _ => none
  | .finish =>
    match s.emissions with
    | ⟨_, _, [], false⟩ :: outer => some { s with emissions := outer }
    | _ => none

end EmitterSystem

end RefPool
