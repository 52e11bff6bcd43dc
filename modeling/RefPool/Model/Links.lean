import RefPool.Lib.LinkedList
import RefPool.Model.Step

/-! The idle list as the source keeps it: links through the entries, and loops over them. -/

namespace RefPool

/-- A call on the idle list: the links live in the entries, which are known by address. -/
inductive IdleCall where
  | idleAppend (entry : EntryId)
  | idleRemove (entry : EntryId)
  deriving DecidableEq, Repr

namespace IdleCall

/-- What a call does to the links. -/
def link (links : LinkedList EntryId) : IdleCall → LinkedList EntryId
  | .idleAppend entry => links.append entry
  | .idleRemove entry => links.remove entry

/-- What a call is meant to do to the sequence that the links stand for. -/
def edit (list : List EntryId) : IdleCall → List EntryId
  | .idleAppend entry => if entry ∈ list then list else list ++ [entry]
  | .idleRemove entry => list.erase entry

end IdleCall

namespace State

variable {κ τ : Type} [DecidableEq κ]

/-- One turn of `takeLruIdle`: the first entry without an acquire in flight is detached. -/
def takeLruIdleTurn (s : State κ τ) (walked : Option EntryId × LinkedList EntryId)
    (node : EntryId) : (Option EntryId × LinkedList EntryId) × Bool :=
  if s.nodePending node then (walked, false) else ((some node, walked.2.remove node), true)

/-- `takeLruIdle` over the links: the entry it detaches, and what is left of the list. -/
def takeLruIdleLinks (s : State κ τ) (links : LinkedList EntryId) :
    Option EntryId × LinkedList EntryId :=
  LinkedList.walk Prod.snd s.takeLruIdleTurn s.heap.length links.head (none, links)

/-- One turn of `sweep`: stop at an entry newer than the cutoff, and pass over a pending one. -/
def sweepTurn (s : State κ τ) (cutoff : Int) (walked : List EntryId × LinkedList EntryId)
    (node : EntryId) : (List EntryId × LinkedList EntryId) × Bool :=
  match s.heap[node]? with
  | none => (walked, false)
  -- Nothing that the loop reads of an entry is changed by the evictions before it.
  | some entry =>
    if cutoff < entry.lastReleasedAt then (walked, true)
    else if s.nodePending node then (walked, false)
    else ((walked.1 ++ [node], walked.2.remove node), false)

/-- The loop of `sweep` over the links: the entries it evicts, and what is left of the list. -/
def sweepLinksFrom (s : State κ τ) (cutoff : Int) (links : LinkedList EntryId) :
    List EntryId × LinkedList EntryId :=
  LinkedList.walk Prod.snd (s.sweepTurn cutoff) s.heap.length links.head ([], links)

/-- `sweep` over the links. -/
def sweepLinks (options : PoolOptions) (s : State κ τ) (links : LinkedList EntryId) :
    List EntryId × LinkedList EntryId :=
  match options.idleTtlMs with
  | none => ([], links)
  | some ttl => if ttl = 0 then ([], links) else s.sweepLinksFrom (s.now - ttl) links

/-- `checkout` takes an entry off the list with its first reference. -/
def checkoutLinks (s : State κ τ) (e : EntryId) (links : LinkedList EntryId) :
    LinkedList EntryId :=
  match s.heap[e]? with
  | none => links
  | some entry => if entry.refCount = 0 then links.remove e else links

/-- `releaseEntry` with the last reference removes a condemned entry, and lists any other. -/
def releaseLinks (s : State κ τ) (e : EntryId) (links : LinkedList EntryId) :
    LinkedList EntryId :=
  match s.heap[e]? with
  | none => links
  | some entry =>
    if entry.disposed then links
    else if entry.refCount = 0 then links
    else if entry.refCount - 1 ≠ 0 then links
    else if entry.condemned ∨ s.orphans.get? entry.key = some e then links.remove e
    else links.append e

/-- `acquireSlot` may detach a victim. -/
def acquireSlotLinks (options : PoolOptions) (s : State κ τ) (links : LinkedList EntryId) :
    LinkedList EntryId :=
  if options.max ≤ 0 then links
  else if s.closed then links
  else if s.entries.size + s.reserved < options.max then links
  else (s.takeLruIdleLinks links).2

/-- `obtain` from the orphan lookup on. -/
def obtainMissingLinks (options : PoolOptions) (s : State κ τ) (key : κ)
    (links : LinkedList EntryId) : LinkedList EntryId :=
  match s.undisposed s.orphans key with
  | some _ => links
  | none => if s.closed then links else s.acquireSlotLinks options links

/-- `obtain` up to its first await. -/
def obtainLinks (options : PoolOptions) (s : State κ τ) (key : κ) (links : LinkedList EntryId) :
    LinkedList EntryId :=
  match s.undisposed s.entries key with
  | some _ => links
  | none => s.obtainMissingLinks options key links

/-- One turn of `drain` over the live entries: only an idle one is removed. -/
def drainTurn (s : State κ τ) (links : LinkedList EntryId) (e : EntryId) : LinkedList EntryId :=
  match s.heap[e]? with
  | none => links
  | some entry => if entry.refCount = 0 then links.remove e else links

/-- `drain` removes the entries it disposes of, and resets the list. -/
def drainLinks (s : State κ τ) (links : LinkedList EntryId) : LinkedList EntryId :=
  (s.entries.values.foldl s.drainTurn links).reset

/-- What an action does to the links. -/
def relink (options : PoolOptions) (s : State κ τ) (links : LinkedList EntryId) :
    Action κ τ → LinkedList EntryId
  | .acquire key =>
    match (s.undisposed s.entries key).filter fun fast => 0 < fast.2.refCount with
    | some (e, _) => s.checkoutLinks e links
    | none => links
  | .releaseHandle h =>
    match s.handles[h]? with
    | none => links
    | some handle => if handle.released then links else s.releaseLinks handle.entry links
  | .release key =>
    match (s.entries.get? key).or (s.orphans.get? key) with
    | none => links
    | some e => s.releaseLinks e links
  | .drain | .stop => s.drainLinks links
  | .sweep => (s.sweepLinks options links).2
  | .obtain a =>
    match s.acquires[a]? with
    | none => links
    | some acquire => s.obtainLinks options acquire.key links
  | .discarded a =>
    match s.acquires[a]? with
    | none => links
    | some acquire => s.obtainMissingLinks options acquire.key links
  | .resume a =>
    match (s.acquires[a]?).map Acquire.phase with
    | some (.parked w) =>
      -- Only a woken call goes for a slot.
      match (s.waiters[w]?).map CapacityWaiter.promise with
      | some .resolved => s.acquireSlotLinks options links
      | _ => links
    | _ => links
  | .deliver a =>
    match (s.acquires[a]?).map Acquire.phase with
    | some (.returned e) => s.checkoutLinks e links
    | _ => links
  | .validated a (some false) =>
    match (s.acquires[a]?).map Acquire.phase with
    | some (.validating live) => links.remove live
    | _ => links
  | .execSettled _ (some _) => if s.closed then links else links.append s.heap.length
  | _ => links

end State

end RefPool
