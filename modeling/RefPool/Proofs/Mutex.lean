import RefPool.Model.Pool
import RefPool.Lib.Arena

/-! The pending marks and the per-key mutexes agree with the calls of `acquire` in flight. -/

namespace RefPool

/-- What the mutex knows of a call: it waits for its turn, it runs, or it has settled. -/
inductive Stage where
  | waiting (after : Option AcquireId)
  | running
  | settled
  deriving DecidableEq, Repr

/-- The stage a call of `acquire` is at. -/
def Phase.stage : Phase → Stage
  | .queued after => .waiting after
  | .fulfilled _ | .rejected _ => .settled
  | _ => .running

/-- A call of `acquire` as its key's mutex sees it. -/
structure Slot (κ : Type) where
  key : κ
  cell : Option CellId
  stage : Stage

/-- The mutex's view of a call. -/
def Acquire.slot {κ : Type} (acquire : Acquire κ) : Slot κ :=
  ⟨acquire.key, acquire.cell, acquire.phase.stage⟩

/-- Whether a call has not settled yet. -/
def Slot.isOpen {κ : Type} (slot : Slot κ) : Bool := slot.stage ≠ .settled

/-- A call at another stage. -/
def Slot.at {κ : Type} (slot : Slot κ) (stage : Stage) : Slot κ := { slot with stage }

section Acquires

variable {κ : Type} {acquires : List (Acquire κ)} {a : AcquireId} {acquire : Acquire κ}

/-- A change of phase within a stage is invisible to the mutex. -/
theorem slots_of_same_stage {phase : Phase} (called : acquires[a]? = some acquire)
    (same : phase.stage = acquire.phase.stage) :
    (acquires.modify a fun acquire => { acquire with phase }).map Acquire.slot =
      acquires.map Acquire.slot := by
  -- The one call that changed reads the same, since the mutex looks at its stage.
  refine Arena.map_modify_of_eq Acquire.slot fun record found => ?_
  cases called.symm.trans found
  simp [Acquire.slot, same]

/-- The mutex sees a call at the position it was made at. -/
theorem slot_of_called (called : acquires[a]? = some acquire) :
    (acquires.map Acquire.slot)[a]? = some acquire.slot := by
  -- A slot is read through the call.
  simp [called]

/-- A change of phase is a change of stage. -/
theorem slots_of_phase (acquires : List (Acquire κ)) (a : AcquireId) (phase : Phase) :
    (acquires.modify a fun acquire => { acquire with phase }).map Acquire.slot =
      (acquires.map Acquire.slot).modify a fun slot => slot.at phase.stage :=
  -- The slot of a call records its stage only.
  Arena.map_modify_commute Acquire.slot _ fun _ _ => rfl

end Acquires

/-- A slot read after a change of stage was there before, at the stage it now has or another. -/
theorem Slot.of_staged {κ : Type} {slots : List (Slot κ)} {stage : Stage} {t i : Nat}
    {slot : Slot κ}
    (found : (slots.modify t fun slot => slot.at stage)[i]? = some slot) :
    ∃ old, slots[i]? = some old ∧ slot.key = old.key ∧ slot.cell = old.cell ∧
      (t = i → slot.stage = stage) ∧ (t ≠ i → slot = old) := by
  -- Only the stage of the slot is assigned.
  rcases Arena.getElem?_modify_cases found with ⟨rfl, old, before, rfl⟩ | ⟨differ, before⟩
  · exact ⟨old, before, rfl, rfl, fun _ => rfl, fun differ => absurd rfl differ⟩
  · exact ⟨slot, before, rfl, rfl, fun same => absurd same differ, fun _ => rfl⟩

namespace KeyState

variable {κ : Type} [DecidableEq κ] (keys : KeyState κ) (key other : κ)

/-- Marking a key adds one mark to it and to no other. -/
theorem pendingOf_incPending : (keys.incPending key).pendingOf other =
    if other = key then keys.pendingOf key + 1 else keys.pendingOf other := by
  -- The number is assigned at one key.
  by_cases same : other = key <;> simp [incPending, pendingOf, OrderedMap.get?_set, same]

/-- Unmarking a key takes one mark from it and from no other. -/
theorem pendingOf_decPending : (keys.decPending key).pendingOf other =
    if other = key then keys.pendingOf key - 1 else keys.pendingOf other := by
  -- The source deletes the last mark instead of counting it down to zero.
  unfold decPending
  by_cases same : other = key <;> split <;>
    simp_all [pendingOf, OrderedMap.get?_set, OrderedMap.get?_delete]

/-- A mark that is set and taken off again leaves all marks as they were. -/
theorem pendingOf_passing :
    ((keys.incPending key).decPending key).pendingOf other = keys.pendingOf other := by
  -- The two changes are to the same key, and cancel.
  rw [pendingOf_decPending, pendingOf_incPending, pendingOf_incPending]
  by_cases same : other = key <;> simp [same]

@[simp] theorem incPending_cells : (keys.incPending key).cells = keys.cells := rfl

@[simp] theorem incPending_mutexes : (keys.incPending key).mutexes = keys.mutexes := rfl

@[simp] theorem decPending_cells : (keys.decPending key).cells = keys.cells := by
  -- Marks are in a field of their own.
  unfold decPending
  split <;> rfl

@[simp] theorem decPending_mutexes : (keys.decPending key).mutexes = keys.mutexes := by
  -- Marks are in a field of their own.
  unfold decPending
  split <;> rfl

variable {keys key other}

/-- Marking a key leaves no empty marks. -/
theorem positive_incPending (positive : ∀ key count, keys.pending.get? key = some count → 0 < count)
    {count : Nat} (found : (keys.incPending key).pending.get? other = some count) : 0 < count := by
  -- A raised count is above zero.
  simp only [incPending, OrderedMap.get?_set] at found
  split at found
  · cases found
    omega
  · exact positive other count found

/-- Unmarking a key leaves no empty marks. -/
theorem positive_decPending (positive : ∀ key count, keys.pending.get? key = some count → 0 < count)
    {count : Nat} (found : (keys.decPending key).pending.get? other = some count) : 0 < count := by
  -- A count that would come down to zero is deleted, so what is left was above one.
  unfold decPending at found
  split at found
  · exact positive other count (OrderedMap.get?_of_delete found).2
  · rw [OrderedMap.get?_set] at found
    split at found
    · cases found
      omega
    · exact positive other count found

/-- Chaining a call on a key that has a cell. -/
theorem runExclusive_bound {c : CellId} (mutex : keys.mutexes.get? key = some c) (a : AcquireId)
    (now : Int) : keys.runExclusive key a now =
      { keys with
        cells := keys.cells.modify c fun cell =>
          { tail := some a, pending := cell.pending + 1, lastUsed := now } } := by
  -- The cell is found, so none is made.
  simp [runExclusive, ensureCell, mutex]

/-- Chaining a call on a key that has no cell. -/
theorem runExclusive_fresh (mutex : keys.mutexes.get? key = none) (a : AcquireId) (now : Int) :
    keys.runExclusive key a now =
      { keys with
        cells := keys.cells ++ [{ tail := some a, pending := 1, lastUsed := now }]
        mutexes := keys.mutexes.set key keys.cells.length } := by
  -- The cell is made empty and then chained on, which is a cell of one call.
  simp only [runExclusive, ensureCell, mutex, OrderedMap.get?_set_self]
  congr 1
  apply List.ext_getElem?
  intro i
  rw [List.getElem?_modify, Arena.getElem?_push, Arena.getElem?_push]
  by_cases last : i = keys.cells.length
  · simp [last]
  · simp [last, Ne.symm last]

@[simp] theorem runExclusive_pending (a : AcquireId) (now : Int) :
    (keys.runExclusive key a now).pending = keys.pending := by
  -- Chaining a call touches the cells and the mutexes.
  cases mutex : keys.mutexes.get? key with
  | some c => rw [runExclusive_bound mutex]
  | none => rw [runExclusive_fresh mutex]

/-- Chaining a call does not read the marks. -/
theorem runExclusive_setPending (keys : KeyState κ) (key : κ) (pending : OrderedMap κ Nat)
    (a : AcquireId) (now : Int) :
    { keys with pending }.runExclusive key a now =
      { keys.runExclusive key a now with pending } := by
  -- Either way the call is chained on a cell, and the marks are carried along.
  cases mutex : keys.mutexes.get? key with
  | some c =>
    rw [runExclusive_bound mutex, @runExclusive_bound _ _ { keys with pending } _ _ mutex]
  | none =>
    rw [runExclusive_fresh mutex, @runExclusive_fresh _ _ { keys with pending } _ mutex]

/-- Queueing a call takes no mark off any key. -/
theorem isPending_enqueue (a : AcquireId) (now : Int) (pending : keys.isPending other = true) :
    ((keys.incPending key).runExclusive key a now).isPending other = true := by
  -- The mark of the call's own key is raised, and the others stay.
  have marks : ((keys.incPending key).runExclusive key a now).pendingOf other =
      (keys.incPending key).pendingOf other := by simp [pendingOf]
  simp only [isPending, decide_eq_true_eq] at pending ⊢
  rw [marks, pendingOf_incPending]
  split <;> omega

@[simp] theorem settled_cells (c : CellId) (now : Int) : (keys.settled key c now).cells =
    keys.cells.modify c fun cell =>
      { cell with pending := cell.pending - 1, lastUsed := now } := by
  -- Whether the cell is forgotten or not, it was written before.
  simp only [settled]
  split
  · rfl
  · split <;> rfl

@[simp] theorem settled_pending (c : CellId) (now : Int) :
    (keys.settled key c now).pending = keys.pending := by
  -- Whether the cell is forgotten or not, the marks stay.
  simp only [settled]
  split
  · rfl
  · split <;> rfl

/-- The last call on a cell takes the cell off its key. -/
theorem settled_mutexes {c : CellId} {cell : MutexCell} (present : keys.cells[c]? = some cell)
    (mutex : keys.mutexes.get? key = some c) (now : Int) :
    (keys.settled key c now).mutexes =
      if cell.pending - 1 = 0 then keys.mutexes.delete key else keys.mutexes := by
  -- The key still has the cell, so the guard of the source comes down to the count.
  simp only [settled, Arena.getElem?_modify_self _ present, mutex, and_true]
  split <;> rfl

end KeyState

/-- The agreement of the pending marks and the mutexes with the calls in flight. -/
structure Chained {κ : Type} [DecidableEq κ] (keys : KeyState κ) (slots : List (Slot κ)) :
    Prop where
  /-- A key is marked once for each of its open calls. -/
  marked : ∀ key, keys.pendingOf key =
    slots.countP fun slot => slot.isOpen && decide (slot.key = key)
  positive : ∀ key count, keys.pending.get? key = some count → 0 < count
  /-- A call waits behind an older call of its key. -/
  behind : ∀ (t : Nat) slot p, slots[t]? = some slot → slot.stage = .waiting (some p) →
    p < t ∧ ∃ before, slots[p]? = some before ∧ before.key = slot.key
  /-- Of two open calls of a key the younger waits for an open call no older than the other. -/
  ordered : ∀ (t t' : Nat) slot slot', t' < t → slots[t]? = some slot → slots[t']? = some slot' →
    slot.isOpen = true → slot'.isOpen = true → slot'.key = slot.key →
    ∃ p before, slot.stage = .waiting (some p) ∧ t' ≤ p ∧ slots[p]? = some before ∧
      before.isOpen = true ∧ before.key = slot.key
  /-- The tail of a key's cell is its youngest open call. -/
  tail : ∀ (t : Nat) slot, slots[t]? = some slot → slot.isOpen = true →
    ∃ c cell p last, slot.cell = some c ∧ keys.mutexes.get? slot.key = some c ∧
      keys.cells[c]? = some cell ∧ cell.tail = some p ∧ t ≤ p ∧ slots[p]? = some last ∧
      last.isOpen = true ∧ last.key = slot.key
  /-- A cell counts its open calls. -/
  counted : ∀ (c : Nat) cell, keys.cells[c]? = some cell → cell.pending =
    slots.countP fun slot => slot.isOpen && decide (slot.cell = some c)
  /-- A cell that a key still has is in use. -/
  bound : ∀ key c, keys.mutexes.get? key = some c →
    ∃ cell, keys.cells[c]? = some cell ∧ 0 < cell.pending
  /-- No two keys share a cell. -/
  unshared : ∀ key other c, keys.mutexes.get? key = some c → keys.mutexes.get? other = some c →
    key = other

namespace Chained

variable {κ : Type} [DecidableEq κ] {keys : KeyState κ} {slots : List (Slot κ)}

/-- A new pool has no marks, no mutexes and no calls. -/
theorem empty : Chained (KeyState.empty : KeyState κ) [] := by
  -- Nothing is marked, bound or open.
  constructor <;> simp [KeyState.empty, KeyState.pendingOf]

/-- A key with an open call is marked. -/
theorem pending_of_open (chained : Chained keys slots) {t : Nat} {slot : Slot κ}
    (found : slots[t]? = some slot) (active : slot.isOpen = true) :
    keys.isPending slot.key = true := by
  -- The marks of a key count its open calls, and this is one.
  have positive := Arena.countP_pos_of_getElem?
    (p := fun other => other.isOpen && decide (other.key = slot.key)) found (by simp [active])
  rw [← chained.marked] at positive
  simpa [KeyState.isPending] using positive

/-- At most one open call of a key has had its turn. -/
theorem alone (chained : Chained keys slots) {t t' : Nat} {slot slot' : Slot κ}
    (found : slots[t]? = some slot) (found' : slots[t']? = some slot')
    (running : slot.stage = .running) (running' : slot'.stage = .running)
    (same : slot.key = slot'.key) : t = t' := by
  -- The younger of the two would still be waiting.
  have active : slot.isOpen = true := by simp [Slot.isOpen, running]
  have active' : slot'.isOpen = true := by simp [Slot.isOpen, running']
  rcases Nat.lt_trichotomy t t' with less | equal | greater
  · obtain ⟨p, _, waiting, -⟩ :=
      chained.ordered t' t slot' slot less found' found active' active same
    simp [running'] at waiting
  · exact equal
  · obtain ⟨p, _, waiting, -⟩ :=
      chained.ordered t t' slot slot' greater found found' active active' same.symm
    simp [running] at waiting

/-- No open call of the key is older than a running one. -/
theorem no_older (chained : Chained keys slots) {t t' : Nat} {slot slot' : Slot κ}
    (found : slots[t]? = some slot) (running : slot.stage = .running) (older : t' < t)
    (found' : slots[t']? = some slot') (active' : slot'.isOpen = true)
    (same : slot'.key = slot.key) : False := by
  -- A call with an older open call of its key ahead would still be waiting.
  obtain ⟨p, _, waiting, -⟩ := chained.ordered t t' slot slot' older found found'
    (by simp [Slot.isOpen, running]) active' same
  simp [running] at waiting

/-- What a key without a cell, or with one, says about its open calls. -/
theorem tailOf_eq (chained : Chained keys slots) (key : κ) :
    (keys.mutexes.get? key = none ∧ keys.tailOf key = none ∧
      ∀ (t : Nat) slot, slots[t]? = some slot → slot.isOpen = true → slot.key ≠ key) ∨
    ∃ c p last, keys.mutexes.get? key = some c ∧ keys.tailOf key = some p ∧
      slots[p]? = some last ∧ last.isOpen = true ∧ last.key = key ∧
      ∀ (t : Nat) slot, slots[t]? = some slot → slot.isOpen = true → slot.key = key → t ≤ p := by
  cases mutex : keys.mutexes.get? key with
  | none =>
    refine .inl ⟨rfl, by simp [KeyState.tailOf, mutex], ?_⟩
    rintro t slot found active rfl
    obtain ⟨c, _, _, _, _, present, -⟩ := chained.tail t slot found active
    simp [mutex] at present
  | some c =>
    -- The cell is in use, so one of its open calls tells what its tail is.
    obtain ⟨cell, present, used⟩ := chained.bound key c mutex
    rw [chained.counted c cell present] at used
    obtain ⟨t, slot, found, counted⟩ := Arena.exists_of_countP_pos used
    simp only [Bool.and_eq_true, decide_eq_true_eq] at counted
    obtain ⟨c', cell', p, last, onCell, mutex', present', tail, -, lastAt, lastOpen, lastKey⟩ :=
      chained.tail t slot found counted.1
    obtain rfl : c = c' := Option.some.inj (counted.2.symm.trans onCell)
    have sameKey := chained.unshared key slot.key c mutex mutex'
    have reads : keys.tailOf key = some p := by
      simp [KeyState.tailOf, mutex, present', tail]
    refine .inr ⟨c, p, last, rfl, reads, lastAt, lastOpen, lastKey.trans sameKey.symm, ?_⟩
    -- Every open call of the key names the same tail, so none is younger.
    rintro t₂ slot₂ found₂ active₂ rfl
    obtain ⟨c₂, cell₂, p₂, _, -, mutex₂, present₂, tail₂, younger, -⟩ :=
      chained.tail t₂ slot₂ found₂ active₂
    have reads₂ : keys.tailOf slot₂.key = some p₂ := by
      simp [KeyState.tailOf, mutex₂, present₂, tail₂]
    rw [reads, Option.some.injEq] at reads₂
    exact reads₂ ▸ younger

/-- The mutex reaches a waiting call: every older call of its key has settled. -/
theorem start (chained : Chained keys slots) {t : Nat} {slot : Slot κ}
    {after : Option AcquireId} (found : slots[t]? = some slot)
    (waiting : slot.stage = .waiting after)
    (turn : ∀ p, after = some p → ∃ before, slots[p]? = some before ∧ before.isOpen = false) :
    Chained keys (slots.modify t fun slot => slot.at .running) := by
  have active : slot.isOpen = true := by simp [Slot.isOpen, waiting]
  -- The call ahead has settled, so no older call of the key is open.
  have first {t' : Nat} {slot' : Slot κ} (older : t' < t) (found' : slots[t']? = some slot')
      (active' : slot'.isOpen = true) : slot'.key ≠ slot.key := by
    intro same
    obtain ⟨p, before, behind, -, present, opened, -⟩ :=
      chained.ordered t t' slot slot' older found found' active active' same
    rw [waiting, Stage.waiting.injEq] at behind
    obtain ⟨other, present', closed⟩ := turn p behind
    cases present.symm.trans present'
    simp [opened] at closed
  -- Starting a call leaves it open, so all counts stay.
  have stays : (slot.at .running).isOpen = slot.isOpen := by
    simp [Slot.at, Slot.isOpen, waiting]
  have opened {i : Nat} {now : Slot κ}
      (read : (slots.modify t fun slot => slot.at .running)[i]? = some now) :
      ∃ old, slots[i]? = some old ∧ now.key = old.key ∧ now.cell = old.cell ∧
        now.isOpen = old.isOpen ∧ (t ≠ i → now = old) := by
    obtain ⟨old, before, key, cell, here, there⟩ := Slot.of_staged read
    refine ⟨old, before, key, cell, ?_, there⟩
    by_cases same : t = i
    · subst same
      cases found.symm.trans before
      simp [Slot.isOpen, here rfl, waiting]
    · rw [there same]
  have kept {i : Nat} {old : Slot κ} (before : slots[i]? = some old) :
      ∃ now, (slots.modify t fun slot => slot.at .running)[i]? = some now ∧
        now.key = old.key ∧ now.isOpen = old.isOpen := by
    by_cases same : t = i
    · subst same
      cases found.symm.trans before
      exact ⟨_, Arena.getElem?_modify_self _ found, rfl, by simp [Slot.at, Slot.isOpen, waiting]⟩
    · exact ⟨old, by rw [Arena.getElem?_modify_other _ _ same, before], rfl, rfl⟩
  -- Only what the started call waited for is lost, and nothing is asked of it any more.
  constructor
  case marked =>
    intro key
    rw [chained.marked, Arena.countP_modify_of_eq]
    intro record present
    cases found.symm.trans present
    exact congrArg (· && decide (slot.key = key)) stays
  case positive => exact chained.positive
  case behind =>
    intro i now p read behind
    obtain ⟨old, before, key, -, -, there⟩ := opened read
    by_cases same : t = i
    · subst same
      obtain ⟨-, -, -, -, here, -⟩ := Slot.of_staged read
      simp [here rfl] at behind
    · obtain ⟨less, prior, present, priorKey⟩ :=
        chained.behind i old p before (there same ▸ behind)
      obtain ⟨now', read', key', -⟩ := kept present
      exact ⟨less, now', read', key'.trans (priorKey.trans key.symm)⟩
  case ordered =>
    intro i i' now now' less read read' active active' same
    obtain ⟨old, before, key, -, openNow, there⟩ := opened read
    obtain ⟨old', before', key', -, openNow', -⟩ := opened read'
    have sameOld : old'.key = old.key := by rw [← key, ← key', same]
    by_cases started : t = i
    · subst started
      cases found.symm.trans before
      exact absurd sameOld (first less before' (openNow' ▸ active'))
    · obtain ⟨p, prior, behind, younger, present, priorOpen, priorKey⟩ :=
        chained.ordered i i' old old' less before before' (openNow ▸ active)
          (openNow' ▸ active') sameOld
      obtain ⟨priorNow, priorRead, priorNowKey, priorNowOpen⟩ := kept present
      exact ⟨p, priorNow, there started ▸ behind, younger, priorRead, priorNowOpen ▸ priorOpen,
        by rw [priorNowKey, priorKey, key]⟩
  case tail =>
    intro i now read active
    obtain ⟨old, before, key, cell, openNow, -⟩ := opened read
    obtain ⟨c, record, p, last, onCell, mutex, present, tail, younger, lastAt, lastOpen, lastKey⟩ :=
      chained.tail i old before (openNow ▸ active)
    obtain ⟨lastNow, lastRead, lastNowKey, lastNowOpen⟩ := kept lastAt
    exact ⟨c, record, p, lastNow, cell.trans onCell, key ▸ mutex, present, tail, younger,
      lastRead, lastNowOpen ▸ lastOpen, by rw [lastNowKey, lastKey, key]⟩
  case counted =>
    intro c cell present
    rw [chained.counted c cell present, Arena.countP_modify_of_eq]
    intro record same
    cases found.symm.trans same
    exact congrArg (· && decide (slot.cell = some c)) stays
  case bound => exact chained.bound
  case unshared => exact chained.unshared

/-- A running call settles: its mark and its place on the cell go. -/
theorem settle (chained : Chained keys slots) {t : Nat} {slot : Slot κ} {c : CellId}
    (found : slots[t]? = some slot) (running : slot.stage = .running)
    (onCell : slot.cell = some c) (now : Int) :
    Chained ((keys.settled slot.key c now).decPending slot.key)
      (slots.modify t fun slot => slot.at .settled) := by
  have active : slot.isOpen = true := by simp [Slot.isOpen, running]
  obtain ⟨c', cell, -, -, onCell', mutex, present, -⟩ := chained.tail t slot found active
  obtain rfl : c = c' := Option.some.inj (onCell.symm.trans onCell')
  -- Whoever is open afterwards was open before and is another call.
  have opened {i : Nat} {now : Slot κ}
      (read : (slots.modify t fun slot => slot.at .settled)[i]? = some now)
      (still : now.isOpen = true) : t ≠ i ∧ slots[i]? = some now := by
    obtain ⟨old, before, -, -, here, there⟩ := Slot.of_staged read
    by_cases same : t = i
    · simp [Slot.isOpen, here same] at still
    · exact ⟨same, there same ▸ before⟩
  have kept {i : Nat} {old : Slot κ} (before : slots[i]? = some old) (differ : t ≠ i) :
      (slots.modify t fun slot => slot.at .settled)[i]? = some old := by
    rw [Arena.getElem?_modify_other _ _ differ, before]
  have younger {i : Nat} {old : Slot κ} (before : slots[i]? = some old)
      (still : old.isOpen = true) (same : old.key = slot.key) : t ≤ i := by
    by_contra less
    exact chained.no_older found running (by omega) before still same
  -- The settled call is the only one a count can lose.
  have less (p : Slot κ → Bool) :
      (slots.modify t fun slot => slot.at .settled).countP (fun other => other.isOpen && p other) =
        slots.countP (fun other => other.isOpen && p other) - if p slot then 1 else 0 := by
    have moved := Arena.countP_modify (fun slot : Slot κ => slot.at .settled)
      (fun other => other.isOpen && p other) found
    have closed : (slot.at .settled).isOpen = false := by simp [Slot.at, Slot.isOpen]
    simp only [closed, active, Bool.false_and, Bool.true_and, Bool.false_eq_true, if_false] at moved
    omega
  -- Settling binds no key, so what is bound afterwards was bound before.
  have earlier {key : κ} {d : CellId}
      (mutex' : ((keys.settled slot.key c now).decPending slot.key).mutexes.get? key = some d) :
      keys.mutexes.get? key = some d := by
    rw [KeyState.decPending_mutexes, KeyState.settled_mutexes present mutex] at mutex'
    split at mutex'
    · exact (OrderedMap.get?_of_delete mutex').2
    · exact mutex'
  -- Each clause is that of before for the calls still open.
  constructor
  case marked =>
    intro key
    rw [less fun other => decide (other.key = key), KeyState.pendingOf_decPending,
      ← chained.marked key]
    simp only [KeyState.pendingOf, KeyState.settled_pending, decide_eq_true_eq]
    by_cases same : key = slot.key
    · simp [same]
    · simp [same, Ne.symm same]
  case positive =>
    intro key count
    refine KeyState.positive_decPending fun key count held => ?_
    exact chained.positive key count (by simpa using held)
  case behind =>
    intro i read p at_ waiting
    obtain ⟨differ, before⟩ := opened at_ (by simp [Slot.isOpen, waiting])
    obtain ⟨less, prior, priorAt, priorKey⟩ := chained.behind i read p before waiting
    refine ⟨less, ?_⟩
    by_cases same : t = p
    · subst same
      cases found.symm.trans priorAt
      exact ⟨_, Arena.getElem?_modify_self _ found, priorKey⟩
    · exact ⟨prior, kept priorAt same, priorKey⟩
  case ordered =>
    intro i i' read read' older at_ at_' still still' same
    obtain ⟨differ, before⟩ := opened at_ still
    obtain ⟨differ', before'⟩ := opened at_' still'
    obtain ⟨p, prior, waiting, after, priorAt, priorOpen, priorKey⟩ :=
      chained.ordered i i' read read' older before before' still still' same
    refine ⟨p, prior, waiting, after, kept priorAt ?_, priorOpen, priorKey⟩
    rintro rfl
    cases found.symm.trans priorAt
    have := younger before' still' (same.trans priorKey.symm)
    omega
  case tail =>
    intro i read at_ still
    obtain ⟨differ, before⟩ := opened at_ still
    obtain ⟨d, record, p, last, onCell', mutex', present', tail, after, lastAt, lastOpen,
      lastKey⟩ :=
      chained.tail i read before still
    -- The tail is not the settled call, or the open one would be older than a running call.
    have lastNow : t ≠ p := by
      rintro rfl
      cases found.symm.trans lastAt
      have := younger before still lastKey.symm
      omega
    -- A cell with another open call stays in use.
    have remains : ((keys.settled slot.key c now).decPending slot.key).mutexes.get? read.key =
        some d := by
      rw [KeyState.decPending_mutexes, KeyState.settled_mutexes present mutex]
      split
      · rename_i spent
        rw [OrderedMap.get?_delete, if_neg, mutex']
        intro same
        have shared : c = d := by
          rw [same, mutex, Option.some.injEq] at mutex'
          exact mutex'
        subst shared
        have counted := chained.counted c cell present
        have two := less fun other => decide (other.cell = some c)
        simp only [onCell, decide_true, if_true] at two
        have positive := Arena.countP_pos_of_getElem?
          (p := fun other => other.isOpen && decide (other.cell = some c))
          (kept before differ) (by simp [still, onCell'])
        omega
      · exact mutex'
    -- The shared cell is rewritten, and any other one is not.
    by_cases sameCell : c = d
    · subst sameCell
      cases present.symm.trans present'
      have reads : ((keys.settled slot.key c now).decPending slot.key).cells[c]? =
          some { cell with pending := cell.pending - 1, lastUsed := now } := by
        rw [KeyState.decPending_cells, KeyState.settled_cells]
        exact Arena.getElem?_modify_self _ present
      exact ⟨c, _, p, last, onCell', remains, reads, tail, after, kept lastAt lastNow, lastOpen,
        lastKey⟩
    · exact ⟨d, record, p, last, onCell', remains, by
        rw [KeyState.decPending_cells, KeyState.settled_cells,
          Arena.getElem?_modify_other _ _ sameCell, present'], tail, after, kept lastAt lastNow,
        lastOpen, lastKey⟩
  case counted =>
    intro d record at_
    rw [KeyState.decPending_cells, KeyState.settled_cells] at at_
    rw [less fun other => decide (other.cell = some d)]
    simp only [onCell, Option.some.injEq, decide_eq_true_eq]
    rcases Arena.getElem?_modify_cases at_ with ⟨rfl, old, before, rfl⟩ | ⟨differ, before⟩
    · simp [chained.counted c old before]
    · simp [chained.counted d record before, differ]
  case bound =>
    intro key d mutex'
    have before := earlier mutex'
    rw [KeyState.decPending_mutexes, KeyState.settled_mutexes present mutex] at mutex'
    rw [KeyState.decPending_cells, KeyState.settled_cells]
    obtain ⟨record, at_, used⟩ := chained.bound key d before
    by_cases sameCell : c = d
    · subst sameCell
      cases present.symm.trans at_
      have sameKey := chained.unshared key slot.key c before mutex
      refine ⟨_, Arena.getElem?_modify_self _ present, ?_⟩
      split at mutex'
      · exact absurd sameKey (OrderedMap.get?_of_delete mutex').1
      · dsimp only
        omega
    · exact ⟨record, by rw [Arena.getElem?_modify_other _ _ sameCell, at_], used⟩
  case unshared =>
    exact fun key other d left right => chained.unshared key other d (earlier left) (earlier right)

/-- A call that settles at once leaves no trace. -/
theorem pass (chained : Chained keys slots) (key : κ) :
    Chained ((keys.incPending key).decPending key) (slots ++ [⟨key, none, .settled⟩]) := by
  -- The settled call is invisible to every clause, and its mark is taken away again.
  have closed : (⟨key, none, .settled⟩ : Slot κ).isOpen = false := by simp [Slot.isOpen]
  have opened {i : Nat} {read : Slot κ} (at_ : (slots ++ [⟨key, none, .settled⟩])[i]? = some read)
      (still : read.stage ≠ .settled) : slots[i]? = some read := by
    rcases Arena.getElem?_push_cases at_ with ⟨-, rfl⟩ | before
    · exact absurd rfl still
    · exact before
  have stage {read : Slot κ} (still : read.isOpen = true) : read.stage ≠ .settled := by
    simpa [Slot.isOpen] using still
  constructor
  case marked =>
    intro other
    rw [List.countP_append, KeyState.pendingOf_passing, chained.marked other]
    simp [closed]
  case positive =>
    exact fun other count => KeyState.positive_decPending fun _ _ =>
      KeyState.positive_incPending chained.positive
  -- The calls that wait are the same, and wait for the same calls.
  case behind =>
    intro i read p at_ waiting
    obtain ⟨less, prior, priorAt, priorKey⟩ :=
      chained.behind i read p (opened at_ (by simp [waiting])) waiting
    exact ⟨less, prior, Arena.getElem?_push_of_some _ priorAt, priorKey⟩
  case ordered =>
    intro i i' read read' older at_ at_' still still' same
    obtain ⟨p, prior, waiting, after, priorAt, rest⟩ := chained.ordered i i' read read' older
      (opened at_ (stage still)) (opened at_' (stage still')) still still' same
    exact ⟨p, prior, waiting, after, Arena.getElem?_push_of_some _ priorAt, rest⟩
  case tail =>
    intro i read at_ still
    obtain ⟨c, cell, p, last, onCell, mutex, present, tail, after, lastAt, rest⟩ :=
      chained.tail i read (opened at_ (stage still)) still
    exact ⟨c, cell, p, last, onCell, by simpa using mutex, by simpa using present, tail, after,
      Arena.getElem?_push_of_some _ lastAt, rest⟩
  -- The marks of the cells are as before.
  case counted =>
    intro c cell present
    rw [List.countP_append, chained.counted c cell (by simpa using present)]
    simp [closed]
  case bound =>
    intro other c mutex
    simpa using chained.bound other c (by simpa using mutex)
  case unshared =>
    intro other third c left right
    exact chained.unshared other third c (by simpa using left) (by simpa using right)

/-- The cell a call is chained on, and what the others keep. -/
theorem chain_cell (chained : Chained keys slots) (key : κ) (a : AcquireId) (now : Int) :
    ∃ c cell, (keys.runExclusive key a now).mutexes.get? key = some c ∧
      (keys.runExclusive key a now).cells[c]? = some cell ∧ cell.tail = some a ∧
      cell.pending = slots.countP (fun slot => slot.isOpen && decide (slot.cell = some c)) + 1 ∧
      (∀ d, d ≠ c → (keys.runExclusive key a now).cells[d]? = keys.cells[d]?) ∧
      (∀ other, other ≠ key →
        (keys.runExclusive key a now).mutexes.get? other = keys.mutexes.get? other) ∧
      (∀ other, keys.mutexes.get? other = some c → other = key) ∧
      (∀ d, keys.mutexes.get? key = some d → d = c) := by
  -- The cell is the one of the key, in use already, or a fresh one.
  cases mutex : keys.mutexes.get? key with
  | some c =>
    obtain ⟨cell, present, -⟩ := chained.bound key c mutex
    rw [KeyState.runExclusive_bound mutex]
    refine ⟨c, _, mutex, Arena.getElem?_modify_self _ present, rfl, ?_, ?_, fun _ _ => rfl, ?_, ?_⟩
    · rw [← chained.counted c cell present]
    · exact fun d differ => Arena.getElem?_modify_other _ _ (Ne.symm differ)
    · exact fun other shared => chained.unshared other key c shared mutex
    · exact fun d same => (Option.some.inj same).symm
  | none =>
    rw [KeyState.runExclusive_fresh mutex]
    refine ⟨keys.cells.length, { tail := some a, pending := 1, lastUsed := now },
      OrderedMap.get?_set_self _ _ _, by simp, rfl, ?_, ?_, ?_, ?_, by simp⟩
    · -- Nobody is chained on a cell that did not exist.
      have unused : slots.countP
          (fun slot => slot.isOpen && decide (slot.cell = some keys.cells.length)) = 0 := by
        by_contra used
        obtain ⟨t, slot, found, counted⟩ := Arena.exists_of_countP_pos (Nat.pos_of_ne_zero used)
        simp only [Bool.and_eq_true, decide_eq_true_eq] at counted
        obtain ⟨c, cell, -, -, onCell, -, present, -⟩ := chained.tail t slot found counted.1
        cases counted.2.symm.trans onCell
        simp at present
      rw [unused]
    · exact fun d differ => by rw [Arena.getElem?_push, if_neg differ]
    · exact fun other differ => OrderedMap.get?_set_ne _ _ differ
    · intro other shared
      obtain ⟨cell, present, -⟩ := chained.bound other _ shared
      simp at present

/-- A new call queues behind the youngest open call of its key. -/
theorem enqueue (chained : Chained keys slots) (key : κ) (now : Int) :
    Chained ((keys.incPending key).runExclusive key slots.length now)
      (slots ++ [⟨key, ((keys.incPending key).runExclusive key slots.length now).mutexes.get? key,
        .waiting ((keys.incPending key).tailOf key)⟩]) := by
  -- The marks do not touch the mutexes, so the chain is that of the unmarked key state.
  have marks : (keys.incPending key).runExclusive key slots.length now =
      { keys.runExclusive key slots.length now with
        pending := (keys.incPending key).pending } :=
    keys.runExclusive_setPending _ _ _ _
  have reads : (keys.incPending key).tailOf key = keys.tailOf key := rfl
  rw [marks, reads]
  obtain ⟨c, cell, mutex, present, tail, counts, others, apart, mine, same⟩ :=
    chained.chain_cell key slots.length now
  dsimp only
  rw [mutex]
  have fresh : (⟨key, some c, .waiting (keys.tailOf key)⟩ : Slot κ).isOpen = true := by
    simp [Slot.isOpen]
  have newest : (slots ++ [⟨key, some c, .waiting (keys.tailOf key)⟩])[slots.length]? =
      some ⟨key, some c, .waiting (keys.tailOf key)⟩ := by simp
  constructor
  case marked =>
    intro other
    have count : KeyState.pendingOf { keys.runExclusive key slots.length now with
        pending := (keys.incPending key).pending } other =
        (keys.incPending key).pendingOf other := rfl
    rw [count, KeyState.pendingOf_incPending, List.countP_append, List.countP_singleton, fresh,
      chained.marked, chained.marked]
    by_cases asked : other = key
    · simp [asked]
    · simp [asked, Ne.symm asked]
  case positive =>
    exact fun other count => KeyState.positive_incPending chained.positive
  -- The new call waits for the tail, which is an older call of its key.
  case behind =>
    intro i read p at_ waiting
    rcases Arena.getElem?_push_cases at_ with ⟨rfl, rfl⟩ | before
    · rcases chained.tailOf_eq key with
        ⟨-, none, -⟩ | ⟨-, last, prior, -, tailAt, priorAt, -, lastKey, -⟩
      · simp [none] at waiting
      · rw [Stage.waiting.injEq, tailAt, Option.some.injEq] at waiting
        subst waiting
        obtain ⟨less, -⟩ := List.getElem?_eq_some_iff.mp priorAt
        exact ⟨less, prior, Arena.getElem?_push_of_some _ priorAt, lastKey⟩
    · obtain ⟨less, prior, priorAt, priorKey⟩ := chained.behind i read p before waiting
      exact ⟨less, prior, Arena.getElem?_push_of_some _ priorAt, priorKey⟩
  -- The tail is the youngest open call of the key, so none lies between it and the new one.
  case ordered =>
    intro i i' read read' older at_ at_' still still' asked
    rcases Arena.getElem?_push_cases at_' with ⟨rfl, -⟩ | before'
    · rcases Arena.getElem?_push_cases at_ with ⟨rfl, -⟩ | before
      · exact absurd older (Nat.lt_irrefl _)
      · obtain ⟨less, -⟩ := List.getElem?_eq_some_iff.mp before
        omega
    · rcases Arena.getElem?_push_cases at_ with ⟨rfl, rfl⟩ | before
      · rcases chained.tailOf_eq key with ⟨-, -, none⟩ |
          ⟨-, last, prior, -, tailAt, priorAt, priorOpen, priorKey, youngest⟩
        · exact absurd asked (none i' read' before' still')
        · exact ⟨last, prior, congrArg Stage.waiting tailAt, youngest i' read' before' still' asked,
            Arena.getElem?_push_of_some _ priorAt, priorOpen, priorKey⟩
      · obtain ⟨p, prior, waiting, after, priorAt, rest⟩ :=
          chained.ordered i i' read read' older before before' still still' asked
        exact ⟨p, prior, waiting, after, Arena.getElem?_push_of_some _ priorAt, rest⟩
  case tail =>
    intro i read at_ still
    rcases Arena.getElem?_push_cases at_ with ⟨rfl, rfl⟩ | before
    · exact ⟨c, cell, slots.length, _, rfl, mutex, present, tail, Nat.le_refl _, newest, fresh, rfl⟩
    · obtain ⟨d, record, p, last, onCell, mutex', present', tail', after, lastAt, lastOpen,
        lastKey⟩ :=
        chained.tail i read before still
      by_cases asked : read.key = key
      · -- An older call of the key sees the new tail.
        rw [asked] at mutex'
        obtain rfl := same d mutex'
        obtain ⟨less, -⟩ := List.getElem?_eq_some_iff.mp before
        exact ⟨d, cell, slots.length, _, onCell, asked ▸ mutex, present, tail, by omega, newest,
          fresh, asked.symm⟩
      · have differ : d ≠ c := by
          rintro rfl
          exact asked (mine read.key mutex')
        exact ⟨d, record, p, last, onCell, (apart read.key asked).trans mutex',
          (others d differ).trans present', tail', after, Arena.getElem?_push_of_some _ lastAt,
          lastOpen, lastKey⟩
  case counted =>
    intro d record at_
    rw [List.countP_append, List.countP_singleton, fresh]
    by_cases chosen : d = c
    · subst chosen
      cases present.symm.trans at_
      simp [counts]
    · rw [chained.counted d record ((others d chosen).symm.trans at_)]
      simp [Ne.symm chosen]
  case bound =>
    intro other d mutex'
    by_cases asked : other = key
    · subst asked
      obtain rfl : c = d := Option.some.inj (mutex.symm.trans mutex')
      exact ⟨cell, present, by omega⟩
    · have before := (apart other asked).symm.trans mutex'
      have differ : d ≠ c := by
        rintro rfl
        exact asked (mine other before)
      obtain ⟨record, at_, used⟩ := chained.bound other d before
      exact ⟨record, (others d differ).trans at_, used⟩
  -- The chosen cell belongs to the key alone, whether it is fresh or not.
  case unshared =>
    intro left right d leftAt rightAt
    by_cases leftKey : left = key
    · by_cases rightKey : right = key
      · rw [leftKey, rightKey]
      · subst leftKey
        obtain rfl : c = d := Option.some.inj (mutex.symm.trans leftAt)
        exact (mine right ((apart right rightKey).symm.trans rightAt)).symm
    · by_cases rightKey : right = key
      · subst rightKey
        obtain rfl : c = d := Option.some.inj (mutex.symm.trans rightAt)
        exact mine left ((apart left leftKey).symm.trans leftAt)
      · exact chained.unshared left right d ((apart left leftKey).symm.trans leftAt)
          ((apart right rightKey).symm.trans rightAt)

/-- The periodic collection finds no cell to drop: `settled` has dropped them all. -/
theorem gcMutexes_eq (chained : Chained keys slots) (cutoff : Int) :
    keys.gcMutexes cutoff = keys := by
  unfold KeyState.gcMutexes
  -- Each turn of the loop finds its cell in use and leaves it.
  have listed : ∀ item ∈ keys.mutexes.items, keys.mutexes.get? item.1 = some item.2 :=
    fun item inside => OrderedMap.get?_eq_some_iff.mpr inside
  generalize keys.mutexes.items = items at listed ⊢
  induction items with
  | nil => rfl
  | cons item rest ih =>
    obtain ⟨cell, present, used⟩ :=
      chained.bound item.1 item.2 (listed item List.mem_cons_self)
    have busy : ¬(cell.pending = 0 ∧ cell.lastUsed ≤ cutoff) := by omega
    simp only [List.foldl_cons, present, if_neg busy]
    exact ih fun other inside => listed other (List.mem_cons_of_mem _ inside)

/-- A key none of whose calls is open has no cell. -/
theorem unbound (chained : Chained keys slots) {key : κ}
    (settled : ∀ (t : Nat) slot, slots[t]? = some slot → slot.key = key → slot.isOpen = false) :
    keys.mutexes.get? key = none := by
  -- A cell that the key still has would count an open call, and that call is of the key.
  cases mutex : keys.mutexes.get? key with
  | none => rfl
  | some c =>
    obtain ⟨cell, present, used⟩ := chained.bound key c mutex
    rw [chained.counted c cell present] at used
    obtain ⟨t, slot, found, counted⟩ := Arena.exists_of_countP_pos used
    simp only [Bool.and_eq_true, decide_eq_true_eq] at counted
    obtain ⟨d, -, -, -, onCell, mutex', -⟩ := chained.tail t slot found counted.1
    cases counted.2.symm.trans onCell
    have own := chained.unshared slot.key key c mutex' mutex
    simp [settled t slot found own] at counted

/-- Once every call has settled no marks and no mutexes are left. -/
theorem drained (chained : Chained keys slots)
    (settled : ∀ (t : Nat) slot, slots[t]? = some slot → slot.isOpen = false) :
    keys.pending.items = [] ∧ keys.mutexes.items = [] := by
  -- A mark or a cell that were left would count a call that is open.
  constructor
  · rw [OrderedMap.items_eq_nil_iff]
    intro key
    cases held : keys.pending.get? key with
    | none => rfl
    | some count =>
      have positive := chained.positive key count held
      have marked := chained.marked key
      simp only [KeyState.pendingOf, held, Option.getD_some] at marked
      rw [marked] at positive
      obtain ⟨t, slot, found, counted⟩ := Arena.exists_of_countP_pos positive
      simp [settled t slot found] at counted
  · rw [OrderedMap.items_eq_nil_iff]
    exact fun key => chained.unbound fun t slot found _ => settled t slot found

/-- While a call is open some call of its key waits for nobody that is open. -/
theorem exists_first (chained : Chained keys slots) {t : Nat} {slot : Slot κ}
    (found : slots[t]? = some slot) (active : slot.isOpen = true) :
    ∃ (i : Nat) (first : Slot κ), slots[i]? = some first ∧ first.isOpen = true ∧
      first.key = slot.key ∧ ∀ p, first.stage = .waiting (some p) →
        ∃ before, slots[p]? = some before ∧ before.isOpen = false := by
  -- Walk down to the oldest open call of the key.
  induction t using Nat.strongRecOn generalizing slot with
  | _ t ih =>
    by_cases waits : ∃ p before, slot.stage = .waiting (some p) ∧ slots[p]? = some before ∧
        before.isOpen = true
    · obtain ⟨p, before, waiting, present, opened⟩ := waits
      obtain ⟨less, prior, priorAt, priorKey⟩ := chained.behind t slot p found waiting
      cases present.symm.trans priorAt
      obtain ⟨i, first, firstAt, firstOpen, firstKey, ready⟩ := ih p less present opened
      exact ⟨i, first, firstAt, firstOpen, firstKey.trans priorKey, ready⟩
    · refine ⟨t, slot, found, active, rfl, fun p waiting => ?_⟩
      obtain ⟨-, prior, priorAt, -⟩ := chained.behind t slot p found waiting
      refine ⟨prior, priorAt, ?_⟩
      by_contra opened
      exact waits ⟨p, prior, waiting, priorAt, by simpa using opened⟩

end Chained

end RefPool
