import RefPool.Model.Types

/-! Per-key state: pending marks, mutex cells and circuit breakers. -/

namespace RefPool

/-- The pending marks and the mutexes, both by key. -/
structure KeyState (κ : Type) where
  /-- How many acquires of the key are in flight. -/
  pending : OrderedMap κ Nat
  /-- Every `MutexCell` object built so far, at its address. -/
  cells : List MutexCell
  mutexes : OrderedMap κ CellId

namespace KeyState

variable {κ : Type} [DecidableEq κ]

/-- The key state of a new pool. -/
def empty : KeyState κ := ⟨.empty, [], .empty⟩

/-- The number of acquires in flight for a key. -/
def pendingOf (keys : KeyState κ) (key : κ) : Nat := (keys.pending.get? key).getD 0

/-- Mark one more acquire in flight. -/
def incPending (keys : KeyState κ) (key : κ) : KeyState κ :=
  { keys with pending := keys.pending.set key (keys.pendingOf key + 1) }

/-- Unmark one acquire, forgetting the key with its last mark. -/
def decPending (keys : KeyState κ) (key : κ) : KeyState κ :=
  -- A count never stays in the map at zero.
  if keys.pendingOf key ≤ 1 then { keys with pending := keys.pending.delete key }
  else { keys with pending := keys.pending.set key (keys.pendingOf key - 1) }

/-- Whether an acquire is in flight for a key. -/
def isPending (keys : KeyState κ) (key : κ) : Bool := 0 < keys.pendingOf key

/-- The mutex cell of a key, built when the key has none. -/
def ensureCell (keys : KeyState κ) (key : κ) (now : Int) : KeyState κ :=
  match keys.mutexes.get? key with
  | some _ => keys
  -- A fresh cell is unlocked: nothing has to be awaited.
  | none =>
    { keys with
      cells := keys.cells ++ [{ tail := none, pending := 0, lastUsed := now }]
      mutexes := keys.mutexes.set key keys.cells.length }

/-- The call that the tail promise of a key's cell is the result of. -/
def tailOf (keys : KeyState κ) (key : κ) : Option AcquireId :=
  (keys.mutexes.get? key).bind fun c => (keys.cells[c]?).bind MutexCell.tail

/-- Chain a call on the mutex of its key and make it the new tail. -/
def runExclusive (keys : KeyState κ) (key : κ) (a : AcquireId) (now : Int) : KeyState κ :=
  let keys := keys.ensureCell key now
  match keys.mutexes.get? key with
  | none => keys
  | some c =>
    -- The call becomes the tail that the next call of the key awaits.
    { keys with
      cells := keys.cells.modify c fun cell =>
        { tail := some a, pending := cell.pending + 1, lastUsed := now } }

/-- The `settled` reaction: one call less on the cell, which goes when it was the last. -/
def settled (keys : KeyState κ) (key : κ) (c : CellId) (now : Int) : KeyState κ :=
  let keys :=
    { keys with
      cells := keys.cells.modify c fun cell =>
        { cell with pending := cell.pending - 1, lastUsed := now } }
  match keys.cells[c]? with
  | none => keys
  -- A cell that was replaced in the map meanwhile is left to its own calls.
  | some cell =>
    if cell.pending = 0 ∧ keys.mutexes.get? key = some c then
      { keys with mutexes := keys.mutexes.delete key }
    else keys

/-- Delete the cells nobody has used since the cutoff. -/
def gcMutexes (keys : KeyState κ) (cutoff : Int) : KeyState κ :=
  -- The walk is over a snapshot of the map.
  keys.mutexes.items.foldl (fun keys item =>
    match keys.cells[item.2]? with
    | none => keys
    -- A cell with calls on it is never collected.
    | some cell =>
      if cell.pending = 0 ∧ cell.lastUsed ≤ cutoff then
        { keys with mutexes := keys.mutexes.delete item.1 }
      else keys) keys

end KeyState

/-- How a per-key breaker factory can answer: it throws, or makes a breaker. -/
inductive BreakerMade where
  | threw
  /-- The breaker comes in whatever state the factory leaves it in. -/
  | made (observable : Bool) (state : BreakerState := .closed)
  deriving DecidableEq, Repr

/-- The breakers of a pool. -/
structure BreakerBank (κ : Type) where
  /-- Every breaker the pool was given, at its address. -/
  objects : List (Breaker κ)
  breakers : OrderedMap κ BreakerId
  /-- The keys whose breaker the pool is subscribed to. -/
  breakerUnsubs : OrderedMap κ BreakerId

namespace BreakerBank

variable {κ : Type} [DecidableEq κ]

/-- The breakers of a new pool: the shared one is wired in the constructor. -/
def empty : BreakerOption → BreakerBank κ
  | .shared observable state => ⟨[{ state, key := none, subscribed := observable }],
      .empty, .empty⟩
  | .factory => ⟨[], .empty, .empty⟩

/-- The bank once the breaker of a key is at hand, or nothing when the factory throws. -/
def resolveBreaker (bank : BreakerBank κ) (option : BreakerOption) (key : κ)
    (answer : BreakerMade) : Option (BreakerBank κ) :=
  match option with
  | .shared _ _ => some bank
  | .factory =>
    match bank.breakers.get? key with
    -- A key keeps the breaker it was given first.
    | some _ => some bank
    | none =>
      match answer with
      -- The exception leaves `obtain` before anything is recorded.
      | .threw => none
      | .made observable state =>
        let b := bank.objects.length
        some
          { objects := bank.objects ++ [{ state, key := some key, subscribed := observable }]
            breakers := bank.breakers.set key b
            breakerUnsubs :=
              if observable then bank.breakerUnsubs.set key b else bank.breakerUnsubs }

/-- Drop a closed per-key breaker whose key has no presence, and unsubscribe from it. -/
def dropBreaker (bank : BreakerBank κ) (option : BreakerOption) (key : κ) (present : Bool) :
    BreakerBank κ :=
  match option with
  -- A shared breaker lives as long as the pool.
  | .shared _ _ => bank
  | .factory =>
    match bank.breakers.get? key with
    | none => bank
    | some b =>
      match bank.objects[b]? with
      | none => bank
      | some breaker =>
        -- A breaker that is protecting is not forgotten.
        if breaker.state ≠ .closed then bank
        else if present then bank
        else
          { objects := match bank.breakerUnsubs.get? key with
              | none => bank.objects
              | some subscribed => bank.objects.modify subscribed fun breaker =>
                  { breaker with subscribed := false }
            breakers := bank.breakers.delete key
            breakerUnsubs := bank.breakerUnsubs.delete key }

end BreakerBank

end RefPool
