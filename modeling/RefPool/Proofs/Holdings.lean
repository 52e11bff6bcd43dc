import RefPool.Proofs.Borrowing

/-! Every reference counts for a handle that was not given back, whatever became of its entry. -/

namespace RefPool

variable {κ τ : Type}

/-- How many handles were issued on an entry, those left out that are gone. -/
def holding (handles : List Handle) (gone : HandleId → Bool) (e : EntryId) : Nat :=
  (List.range handles.length).countP fun h =>
    !gone h && (handles[h]?).any fun handle => decide (handle.entry = e)

/-- A handle that is issued is one more on its entry. -/
theorem holding_issue {handles : List Handle} {gone : HandleId → Bool} (e other : EntryId)
    (fresh : gone handles.length = false) :
    holding (handles ++ [{ entry := e, released := false }]) gone other =
      holding handles gone other + if e = other then 1 else 0 := by
  rw [holding, List.length_append, List.length_singleton, List.range_succ, List.countP_append]
  congr 1
  · -- The older handles are where they were.
    refine List.countP_congr fun h below => ?_
    rw [List.getElem?_append_left (List.mem_range.mp below)]
  · simp [fresh]

/-- The counts of all entries compare with the handles on them that are not gone. -/
structure Attributed (r : Nat → Nat → Prop) (heap : List (Entry κ τ)) (handles : List Handle)
    (gone : HandleId → Bool) : Prop where
  issued : ∀ handle ∈ handles, handle.entry < heap.length
  /-- Only handles that were issued are gone. -/
  known : ∀ h, gone h = true → h < handles.length
  counts : ∀ (e : Nat) entry, heap[e]? = some entry → r entry.refCount (holding handles gone e)

namespace Attributed

variable {r : Nat → Nat → Prop} {heap : List (Entry κ τ)} {handles : List Handle}
  {gone : HandleId → Bool}

/-- The counts of all entries matter, whatever became of them. -/
theorem compared (attributed : Attributed r heap handles gone) :
    Compared r true heap handles (holding handles gone) :=
  -- It is the same table, for entries that all matter.
  ⟨attributed.issued, fun e entry found _ => attributed.counts e entry found⟩

/-- A comparison of all counts with the handles that are not gone. -/
theorem of_compared (known : ∀ h, gone h = true → h < handles.length)
    (compared : Compared r true heap handles (holding handles gone)) :
    Attributed r heap handles gone :=
  -- It is the same table, for entries that all matter.
  ⟨compared.issued, known, fun e entry found => compared.counts e entry found (.inl rfl)⟩

/-- A handle that is yet to be issued is not gone. -/
theorem gone_length (attributed : Attributed r heap handles gone) :
    gone handles.length = false := by
  -- A handle that is gone has been issued.
  cases isGone : gone handles.length with
  | false => rfl
  | true => exact absurd (attributed.known _ isGone) (Nat.lt_irrefl _)

/-- Nobody holds an entry that is yet to be made. -/
theorem holding_eq_zero (attributed : Attributed r heap handles gone) :
    holding handles gone heap.length = 0 := by
  -- Every handle is on an entry that was there when it was issued.
  rw [holding, List.countP_eq_zero]
  intro h _
  cases read : handles[h]? with
  | none => simp
  | some handle =>
    have older := Nat.ne_of_lt (attributed.issued handle (List.mem_of_getElem? read))
    simp [older]

end Attributed

namespace State

variable [DecidableEq κ] {options : PoolOptions} {s next : State κ τ} {action : Action κ τ}
  {r : Nat → Nat → Prop} {gone gone' : HandleId → Bool} {h : HandleId} {handle : Handle}

/-- A step that releases no handle keeps the comparison. -/
theorem ReferenceEffect.attributed (effect : ReferenceEffect s action next)
    (comparison : Comparison r) (attributed : Attributed r s.heap s.handles gone)
    (other : ∀ h, action ≠ .releaseHandle h)
    (dropping : s.HandlesOnly action ∨ ∀ n m, r (n + 1) m → r n m) :
    Attributed r next.heap next.handles gone := by
  -- Each of the laws of the comparison keeps the handles that are gone.
  have compared := attributed.compared
  cases effect with
  | kept _ _ store handles =>
    rw [handles]
    exact .of_compared attributed.known (compared.kept store)
  | issued _ _ e entry found heap handles =>
    rw [heap, handles]
    refine .of_compared (fun h isGone => ?_) (compared.checkout comparison found fun i =>
      holding_issue e i attributed.gone_length)
    rw [List.length_append]
    exact Nat.lt_add_right 1 (attributed.known h isGone)
  | released h => exact absurd rfl (other h)
  | releasedKey key e _ effect =>
    rw [effect.sameCalls.handles]
    rcases dropping with never | loose
    · exact absurd never (by simp [HandlesOnly])
    · exact .of_compared attributed.known (.releaseKey effect compared loose)
  | inserted _ _ key resource now heap handles =>
    rw [heap, handles]
    exact .of_compared attributed.known
      (compared.insert comparison attributed.holding_eq_zero key resource now)

/-- Dropping a reference leaves the entries that were disposed of as they are. -/
theorem ReleaseEffect.heap_disposed {e i : EntryId} {entry : Entry κ τ}
    (effect : ReleaseEffect s e next) (disposed : entry.disposed = true) :
    next.heap[i]? = some entry ↔ s.heap[i]? = some entry := by
  rcases effect.heap with ⟨-, rfl⟩ |
    ⟨other, assign, present, undisposed, -, heap, -, still, -⟩
  · exact Iff.rfl
  · rw [heap]
    by_cases here : e = i
    · -- The entry whose reference is dropped is not disposed of.
      subst here
      rw [Arena.getElem?_modify_self assign present, present]
      refine iff_of_false (fun same => ?_) fun same => ?_
      · cases same
        simp [disposed] at still
      · cases same
        simp [disposed] at undisposed
    · rw [Arena.getElem?_modify_other _ _ here]

end State

end RefPool
