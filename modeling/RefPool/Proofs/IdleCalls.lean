import RefPool.Model.Links

/-! Whatever is called on the idle list, its links stand for a sequence without duplicates. -/

namespace RefPool.IdleCall

variable {links : LinkedList EntryId} {list : List EntryId}

/-- The fields of the idle list stand for a sequence. -/
structure StandsFor (links : LinkedList EntryId) (list : List EntryId) : Prop where
  once : list.Nodup
  /-- `next` runs through the sequence from `idleHead` on. -/
  forward : LinkedList.Follows links.next links.head list
  /-- `prev` runs through it from `idleTail` on, the other way round. -/
  backward : LinkedList.Follows links.prev links.tail list.reverse
  /-- `inIdle` is set on its members. -/
  flagged : ∀ entry, links.marked entry = true ↔ entry ∈ list
  /-- `idleCount` is its length. -/
  counted : links.count = list.length

/-- One call on the links represents the same call on the sequence. -/
theorem represents_link (represents : links.Represents list) (call : IdleCall) :
    (link links call).Represents (edit list call) := by
  -- Each kind of call has its law.
  cases call with
  | idleAppend entry => exact represents.append entry
  | idleRemove entry => exact represents.remove entry

/-- So do any number of calls, one after the other. -/
theorem represents_calls (represents : links.Represents list) (calls : List IdleCall) :
    (calls.foldl link links).Represents (calls.foldl edit list) := by
  -- By induction on the calls.
  induction calls generalizing links list with
  | nil => exact represents
  | cons call rest ih => exact ih (represents_link represents call)

/-- After any calls on the empty list its fields stand for the sequence that the calls spell. -/
theorem standsFor_calls (calls : List IdleCall) :
    StandsFor (calls.foldl link .empty) (calls.foldl edit []) := by
  -- The links represent the sequence, from the empty list on.
  obtain ⟨spells, exact⟩ := represents_calls LinkedList.represents_empty calls
  exact
    { once := spells.once
      forward := spells.follows_next
      backward := spells.follows_prev
      flagged := exact
      counted := spells.count }

/-- An entry is removed from the middle, appended again, and appended once more. -/
example : [idleAppend 1, idleAppend 2, idleAppend 3, idleRemove 2, idleAppend 2, idleAppend 1,
    idleRemove 4].foldl edit [] = [1, 3, 2] := by
  decide

end RefPool.IdleCall
