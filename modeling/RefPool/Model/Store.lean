import RefPool.Model.Types

/-! The keyed store: entry objects, the two maps over them, and the idle list. -/

namespace RefPool

/-- The entries of a pool, live and orphaned, with the idle list threaded through them. -/
structure Store (κ τ : Type) where
  /-- Every `Entry` object built so far, at its address. -/
  heap : List (Entry κ τ)
  entries : OrderedMap κ EntryId
  orphans : OrderedMap κ EntryId
  /-- The idle list from `idleHead` to `idleTail`. -/
  idle : List EntryId
  idleCount : Int

namespace Store

variable {κ τ : Type} [DecidableEq κ]

/-- The store of a new pool. -/
def empty : Store κ τ := ⟨[], .empty, .empty, [], 0⟩

/-- Assign fields of one entry object. -/
def update (store : Store κ τ) (e : EntryId) (assign : Entry κ τ → Entry κ τ) : Store κ τ :=
  { store with heap := store.heap.modify e assign }

/-- Append as the most recently released. No effect if already listed. -/
def idleAppend (store : Store κ τ) (e : EntryId) : Store κ τ :=
  match store.heap[e]? with
  | none => store
  | some entry =>
    -- A listed entry keeps its place in the release order.
    if entry.inIdle then store
    else
      { store.update e fun entry => { entry with inIdle := true } with
        idle := store.idle ++ [e]
        idleCount := store.idleCount + 1 }

/-- Unlink from the idle list. No effect if not listed. -/
def idleRemove (store : Store κ τ) (e : EntryId) : Store κ τ :=
  match store.heap[e]? with
  | none => store
  | some entry =>
    if entry.inIdle then
      -- The links of a listed entry are enough to unlink it wherever it stands.
      { store.update e fun entry => { entry with inIdle := false } with
        idle := store.idle.erase e
        idleCount := store.idleCount - 1 }
    else store

/-- Delete the key of an entry from the live map, whatever entry it is bound to. -/
def deleteKey (store : Store κ τ) (e : EntryId) : Store κ τ :=
  match store.heap[e]? with
  | none => store
  | some entry => { store with entries := store.entries.delete entry.key }

/-- Take an entry off the idle list and delete its key, as both eviction walks do. -/
def unlink (store : Store κ τ) (e : EntryId) : Store κ τ :=
  -- The walks delete the key without asking which entry it is bound to.
  (store.idleRemove e).deleteKey e

/-- Remove an entry from the idle list and from whichever map holds it. -/
def removeEntry (store : Store κ τ) (e : EntryId) : Store κ τ :=
  let store := store.idleRemove e
  match store.heap[e]? with
  | none => store
  -- Unlike the eviction walks, each map is asked for this very entry first.
  | some entry =>
    { store with
      entries := store.entries.deleteBinding entry.key e
      orphans := store.orphans.deleteBinding entry.key e }

/-- Take one reference, leaving the idle list on the way up from zero. -/
def checkout (store : Store κ τ) (e : EntryId) : Store κ τ :=
  match store.heap[e]? with
  | none => store
  | some entry =>
    -- Only the step from zero leaves the idle list.
    let store := if entry.refCount = 0 then store.idleRemove e else store
    store.update e fun entry => { entry with refCount := entry.refCount + 1 }

/-- The entry whose disposal a call of `dispose` would start, if it would start one. -/
def toDispose (store : Store κ τ) (e : EntryId) : Option (Entry κ τ) :=
  -- A disposed entry and one with a `disposing` promise are left as they are.
  store.heap[e]?.filter fun entry => !entry.disposed && !entry.disposing

/-- Create the `disposing` promise unless the entry is disposed or has one. -/
def beginDispose (store : Store κ τ) (e : EntryId) : Store κ τ :=
  match store.toDispose e with
  | none => store
  | some _ => store.update e fun entry => { entry with disposing := true }

/-- The entry bound to a key in a map, unless it is disposed. -/
def undisposed (store : Store κ τ) (map : OrderedMap κ EntryId) (key : κ) :
    Option (EntryId × Entry κ τ) :=
  match map.get? key with
  | none => none
  -- The lookup is by key, and the flag is read off the entry it finds.
  | some e =>
    match store.heap[e]? with
    | none => none
    | some entry => if entry.disposed then none else some (e, entry)

/-- Put a fresh idle entry under its key. -/
def insert (store : Store κ τ) (key : κ) (resource : τ) (now : Int) : Store κ τ :=
  let e := store.heap.length
  let entry : Entry κ τ :=
    { key, resource, refCount := 0, lastReleasedAt := now, condemned := false,
      disposed := false, disposing := false, disposeWaiters := [], inIdle := false }
  -- It is bound before it is listed, and both happen before anybody else runs.
  { store with heap := store.heap ++ [entry], entries := store.entries.set key e }.idleAppend e

/-- Move an orphan back to the live map. -/
def resurrect (store : Store κ τ) (key : κ) (e : EntryId) : Store κ τ :=
  -- The condemned flag stays up, and no slot is reserved.
  { store with
    orphans := store.orphans.delete key
    entries := store.entries.set key e }

/-- Move a live entry to the orphans and condemn it. -/
def orphan (store : Store κ τ) (key : κ) (e : EntryId) : Store κ τ :=
  -- The map is assigned, whatever it held for the key.
  { store.update e fun entry => { entry with condemned := true } with
    orphans := store.orphans.set key e }

/-- Forget the idle list without touching the nodes. -/
def resetIdle (store : Store κ τ) : Store κ τ :=
  { store with idle := [], idleCount := 0 }

end Store

end RefPool
