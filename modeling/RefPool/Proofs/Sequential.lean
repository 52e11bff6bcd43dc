import RefPool.Proofs.Shown
import RefPool.Proofs.Neat

/-! Called one acquire at a time, the pool is a cache that evicts the key released longest ago. -/

namespace RefPool

variable {κ τ : Type}

/-- What a rejected call has asked of the cache. -/
def PoolError.request : PoolError → Option (Lru.Request κ)
  -- The lookup never got to a miss.
  | .poolClosed | .validateFailed => none
  | .acquireTimeout | .poolExhausted => some (.fail false)
  -- Room was made for an entry that was never created.
  | .breakerFactoryFailed | .execFailed => some (.fail true)

/--
How far the pool is ahead of the cache while a call is in flight.

The cache answers a call when it settles, and the pool has done part of the work by then.
-/
def Phase.Ahead [DecidableEq κ] (capacity : Option Nat) (key : κ) (cache shown : Lru κ) :
    Phase → Prop
  | .queued _ | .validating _ | .discarding _ | .threw .poolClosed | .threw .validateFailed =>
      shown = cache
  | .parked _ | .threw .acquireTimeout | .threw .poolExhausted => shown = cache.miss
  | .granted | .creating _ | .threw .breakerFactoryFailed | .threw .execFailed =>
      shown = (cache.room capacity).miss ∧ cache.Admits capacity key ∧ key ∉ cache.idle
  -- All that is left is to take the reference.
  | .returned _ => shown.take key = cache.borrow capacity key ∧ cache.Admits capacity key
  | .closing | .fulfilled _ | .rejected _ => False

section Ahead

variable [DecidableEq κ] {capacity : Option Nat} {key other : κ} {cache shown : Lru κ}
  {phase : Phase}

/-- A reference that comes back while a call is in flight leaves the pool as far ahead. -/
theorem Phase.Ahead.giveBack (ahead : phase.Ahead capacity key cache shown)
    (differ : other ≠ key) :
    phase.Ahead capacity key (cache.giveBack other) (shown.giveBack other) := by
  have waiting (same : shown = cache) : shown.giveBack other = cache.giveBack other := by rw [same]
  have missed (same : shown = cache.miss) :
      shown.giveBack other = (cache.giveBack other).miss := by rw [same, Lru.giveBack_miss]
  -- Room was made before the reference came back, and it would be made alike afterwards.
  have granted (same : shown = (cache.room capacity).miss ∧ cache.Admits capacity key ∧
      key ∉ cache.idle) : shown.giveBack other = ((cache.giveBack other).room capacity).miss ∧
        (cache.giveBack other).Admits capacity key ∧ key ∉ (cache.giveBack other).idle := by
    obtain ⟨same, admits, absent⟩ := same
    refine ⟨?_, admits.giveBack, fun inside => ?_⟩
    · rw [same, Lru.giveBack_room (admits.resolve_left absent), Lru.giveBack_miss]
    · rcases Lru.mem_of_mem_idle_giveBack inside with before | last
      · exact absent before
      · exact differ last.1.symm
  cases phase with
  | queued | validating | discarding => exact waiting ahead
  | parked => exact missed ahead
  | granted | creating => exact granted ahead
  | returned =>
    exact ⟨by rw [Lru.giveBack_take differ, Lru.giveBack_borrow ahead.2 differ, ahead.1],
      ahead.2.giveBack⟩
  | threw error =>
    cases error with
    | poolClosed | validateFailed => exact waiting ahead
    | acquireTimeout | poolExhausted => exact missed ahead
    | breakerFactoryFailed | execFailed => exact granted ahead
  | closing | fulfilled | rejected => exact absurd ahead id

/-- What the pool has done for a call takes no reference. -/
theorem Phase.Ahead.held (ahead : phase.Ahead capacity key cache shown) :
    shown.held = cache.held := by
  have waiting (same : shown = cache) : shown.held = cache.held := by rw [same]
  have missed (same : shown = cache.miss) : shown.held = cache.held := by rw [same]; rfl
  have granted (same : shown = (cache.room capacity).miss) : shown.held = cache.held := by
    rw [same]
    exact Lru.room_held capacity cache
  -- The call is ahead by its lookup, its room or its own reference, and by nothing of the others.
  cases phase with
  | queued | validating | discarding => exact waiting ahead
  | parked => exact missed ahead
  | granted | creating => exact granted ahead.1
  | returned =>
    have taken := congrArg Lru.held ahead.1
    rw [Lru.borrow_held] at taken
    exact List.tail_eq_of_cons_eq taken
  | threw error =>
    cases error with
    | poolClosed | validateFailed => exact waiting ahead
    | acquireTimeout | poolExhausted => exact missed ahead
    | breakerFactoryFailed | execFailed => exact granted ahead.1
  | closing | fulfilled | rejected => exact absurd ahead id

/-- Only a call in flight has the pool ahead. -/
theorem Phase.Ahead.active (ahead : phase.Ahead capacity key cache shown) :
    phase.stage ≠ .settled := by
  -- A call that has settled has nothing ahead.
  cases phase with
  | fulfilled | rejected => exact absurd ahead id
  | queued | validating | discarding | parked | granted | creating | closing | returned | threw =>
    simp [Phase.stage]

/-- What a rejected call has asked of the cache is what the pool has done for it. -/
theorem Phase.Ahead.rejected {error : PoolError}
    (ahead : (Phase.threw error).Ahead capacity key cache shown) :
    shown = cache.serve capacity error.request.toList := by
  -- The errors differ by whether a slot had been granted.
  cases error with
  | poolClosed | validateFailed | acquireTimeout | poolExhausted => exact ahead
  | breakerFactoryFailed | execFailed => exact ahead.1

/-- A slot granted for an absent key leads to its reference once the key is brought. -/
theorem Lru.take_bring_room (absent : key ∉ cache.idle) (unheld : key ∉ cache.held) :
    ((cache.room capacity).miss.bring key).take key = cache.borrow capacity key := by
  -- Making room lists no key.
  have unlisted : key ∉ (cache.room capacity).miss.idle := fun inside =>
    absent ((Lru.room_idle_suffix capacity cache).subset inside)
  rw [Lru.take_bring unlisted, Lru.borrow, if_neg (by simp [absent, unheld])]

end Ahead

namespace State

variable [DecidableEq κ]

/-- What a step asks of the cache, if it settles a lookup, returns a reference or drops a key. -/
def request (s : State κ τ) : Action κ τ → Option (Lru.Request κ)
  | .acquire key =>
    -- A call for a key that somebody holds settles at once.
    if (s.undisposed s.entries key).any fun fast => 0 < fast.2.refCount then some (.borrow key)
    else none
  | .deliver a =>
    (s.acquires[a]?).bind fun acquire =>
      match acquire.phase with
      | .returned _ => some (.borrow acquire.key)
      | .threw error => error.request
      | _ => none
  | .releaseHandle h =>
    (s.handles[h]?).bind fun handle =>
      if handle.released then none else (s.keyOf handle.entry).map .giveBack
  -- An entry that fails validation is thrown out.
  | .validated a verdict =>
    (s.acquires[a]?).bind fun acquire =>
      if verdict = some false then some (.drop acquire.key) else none
  | _ => none

/-- One call at a time, no drain and no sweep, and releases through handles only. -/
def OneAtATime (s : State κ τ) : Action κ τ → Prop
  | .acquire _ => ∀ acquire ∈ s.acquires, acquire.phase.stage = .settled
  | .drain | .stop | .sweep | .release _ => False
  | _ => True

/-- Whether an action starts a call while another is in flight can be checked. -/
instance (s : State κ τ) (action : Action κ τ) : Decidable (s.OneAtATime action) := by
  induction action using Action.casesOn <;> unfold OneAtATime <;> infer_instance

variable {options : PoolOptions} {s next : State κ τ} {cache : Lru κ} {a : AcquireId}
  {acquire : Acquire κ}

/-- A pool that serves one call at a time stays neat. -/
theorem Neat.served {action : Action κ τ} (neat : Neat options s) (met : s.OneAtATime action)
    (stepped : s.step options action = some next) : Neat options next := by
  -- The guard excludes drains, and releases by key.
  refine neat.step ?_ ?_ stepped
  · constructor <;> rintro rfl <;> exact met
  · cases action <;> trivial

/-- The one call that has not settled, and by how much the pool is ahead of the cache for it. -/
structure Leads (options : PoolOptions) (s : State κ τ) (cache ahead : Lru κ) (a : AcquireId)
    (acquire : Acquire κ) : Prop where
  called : s.acquires[a]? = some acquire
  others : ∀ (b : Nat) other, b ≠ a → s.acquires[b]? = some other → other.phase.stage = .settled
  shown : s.Shows ahead
  done : acquire.phase.Ahead options.capacity acquire.key cache ahead
  unheld : acquire.key ∉ cache.held

/-- Where the pool stands against the cache. -/
inductive Aligned (options : PoolOptions) (s : State κ τ) (cache : Lru κ) : Prop
  /-- No call is in flight, and the pool shows the cache. -/
  | rest (settled : ∀ acquire ∈ s.acquires, acquire.phase.stage = .settled)
      (shown : s.Shows cache) : Aligned options s cache
  /-- One call is in flight. -/
  | busy (a : AcquireId) (acquire : Acquire κ) (ahead : Lru κ)
      (leads : Leads options s cache ahead a acquire) : Aligned options s cache

/-- A call that has not settled leads. -/
theorem Aligned.leads (aligned : Aligned options s cache) (called : s.acquires[a]? = some acquire)
    (active : acquire.phase.stage ≠ .settled) :
    ∃ ahead, Leads options s cache ahead a acquire := by
  -- An unsettled call is the one that the pool is busy with.
  cases aligned with
  | rest settled => exact absurd (settled acquire (List.mem_of_getElem? called)) active
  | busy b other ahead leads =>
    by_cases same : a = b
    · subst same
      cases called.symm.trans leads.called
      exact ⟨ahead, leads⟩
    · exact absurd (leads.others a acquire same called) active

/-- The call in flight moves on. -/
theorem Leads.move {ahead ahead' : Lru κ} (leads : Leads options s cache ahead a acquire)
    (phase : Phase)
    (calls : next.acquires = s.acquires.modify a fun acquire => { acquire with phase })
    (shown : next.Shows ahead') {cache' : Lru κ} (unheld : acquire.key ∉ cache'.held)
    (done : phase.Ahead options.capacity acquire.key cache' ahead') :
    Aligned options next cache' := by
  -- The other calls have settled, and are not touched.
  refine .busy a { acquire with phase } ahead' ⟨?_, fun b other differ called => ?_, shown, done,
    unheld⟩
  · rw [calls]
    exact Arena.getElem?_modify_self _ leads.called
  · rw [calls, Arena.getElem?_modify_other _ _ (Ne.symm differ)] at called
    exact leads.others b other differ called

/-- The call in flight moves on and leaves keys and counts as they are. -/
theorem Leads.pass {ahead : Lru κ} (leads : Leads options s cache ahead a acquire)
    (phase : Phase) (calls : next.acquires = s.acquires.modify a fun acquire =>
      { acquire with phase }) (store : next.toStore = s.toStore)
    (counters : next.counters = s.counters)
    (done : phase.Ahead options.capacity acquire.key cache ahead) :
    Aligned options next cache :=
  -- What is shown is read from the store and the counters.
  leads.move phase calls (leads.shown.congr store counters) leads.unheld done

/-- The call in flight settles. -/
theorem Leads.settle {ahead : Lru κ} (leads : Leads options s cache ahead a acquire)
    (phase : Phase)
    (calls : next.acquires = s.acquires.modify a fun acquire => { acquire with phase })
    (settled : phase.stage = .settled) {cache' : Lru κ} (shown : next.Shows cache') :
    Aligned options next cache' := by
  -- The leading call was the last one that had not settled.
  refine .rest (fun other inside => ?_) shown
  obtain ⟨b, called⟩ := List.mem_iff_getElem?.mp inside
  rw [calls] at called
  rcases Arena.getElem?_modify_cases called with ⟨-, old, -, rfl⟩ | ⟨differ, before⟩
  · exact settled
  · exact leads.others b other (Ne.symm differ) before

/-- A step that touches neither calls, nor keys, nor counts leaves the pool where it stands. -/
theorem Aligned.of_unmoved (aligned : Aligned options s cache) (calls : next.acquires = s.acquires)
    (shown : ∀ cache, s.Shows cache → next.Shows cache) : Aligned options next cache := by
  -- Whether at rest or busy, the calls are the same and what is shown as well.
  cases aligned with
  | rest settled same => exact .rest (calls ▸ settled) (shown _ same)
  | busy a acquire ahead leads =>
    exact .busy a acquire ahead ⟨calls ▸ leads.called, calls ▸ leads.others, shown _ leads.shown,
      leads.done, leads.unheld⟩

/-- While one call is in flight no other key is marked, so that eviction skips no entry. -/
theorem Leads.not_pending {ahead : Lru κ} (leads : Leads options s cache ahead a acquire)
    (neat : Neat options s) (absent : s.entries.get? acquire.key = none) (node : EntryId)
    (listed : node ∈ s.idle) : s.nodePending node = false := by
  obtain ⟨entry, found, -⟩ := neat.core.store.listed node listed
  have bound := neat.accurate.bound_of_listed found listed
  rw [nodePending_of_found found, Bool.eq_false_iff]
  intro pending
  -- A mark of the key is that of a call, and the one call is for a key that is not live.
  have marks := neat.core.chained.marked entry.key
  rw [KeyState.isPending, decide_eq_true_eq, marks] at pending
  obtain ⟨b, slot, read, counted⟩ := Arena.exists_of_countP_pos pending
  rw [Bool.and_eq_true, decide_eq_true_eq] at counted
  rw [List.getElem?_map, Option.map_eq_some_iff] at read
  obtain ⟨other, called, rfl⟩ := read
  by_cases same : b = a
  · subst same
    cases leads.called.symm.trans called
    have key : acquire.key = entry.key := counted.2
    rw [key, bound] at absent
    cases absent
  · have settled := leads.others b other same called
    simp [Acquire.slot, Slot.isOpen, settled] at counted

/-- A call that holds no reservation is in flight alone, so that nothing is reserved. -/
theorem Leads.unreserved {ahead : Lru κ} (leads : Leads options s cache ahead a acquire)
    (neat : Neat options s) (bounded : 0 < options.max)
    (idle : acquire.phase.reserving = false) : s.reserved = 0 := by
  have booked := neat.booked bounded
  rw [booked, reservations, Int.natCast_eq_zero, List.countP_eq_zero]
  intro other inside
  obtain ⟨b, called⟩ := List.mem_iff_getElem?.mp inside
  by_cases same : b = a
  · subst same
    cases leads.called.symm.trans called
    simp [idle]
  -- The other calls have settled, and keep no reservation.
  · have settled := leads.others b other same called
    cases phase : other.phase <;> simp_all [Phase.stage, Phase.reserving]

/-- A turn of the reservation loop makes room in the cache exactly when it grants a slot. -/
theorem SlotEffect.ahead {before : State κ τ} (effect : SlotEffect options before a next)
    (wf : before.toStore.WellFormed) (accurate : before.toStore.Exact)
    (opened : before.closed = false) (unreserved : 0 < options.max → before.reserved = 0)
    (shown : before.Shows cache.miss) {key : κ} (absent : key ∉ cache.idle)
    (spares : ∀ node ∈ before.idle, before.nodePending node = false) :
    ∃ phase ahead, next.acquires = before.acquires.modify a (fun acquire =>
      { acquire with phase }) ∧ next.Shows ahead ∧
        phase.Ahead options.capacity key cache ahead := by
  have full : cache.full options.capacity = true ↔
      0 < options.max ∧ options.max ≤ before.entries.size := shown.full_iff wf accurate
  cases effect with
  | unbounded disabled =>
    have roomy : ¬cache.full options.capacity = true := by
      rw [full]
      omega
    exact ⟨.granted, cache.miss, rfl, shown.congr rfl rfl, by rw [Lru.room, if_neg roomy],
      .inr fun crowded => absurd crowded roomy, absent⟩
  | refused _ closed =>
    rw [opened] at closed
    cases closed
  | reserved bounded _ room =>
    have roomy : ¬cache.full options.capacity = true := by
      have := unreserved bounded
      rw [full]
      omega
    exact ⟨.granted, cache.miss, rfl, shown.congr rfl rfl, by rw [Lru.room, if_neg roomy],
      .inr fun crowded => absurd crowded roomy, absent⟩
  -- No idle entry is spared, so that the victim is the first of the list.
  | evicted victim bounded _ exceeded listed _ first =>
    have crowded : cache.full options.capacity = true := by
      have := unreserved bounded
      rw [full]
      omega
    cases idle : before.idle with
    | nil => simp [idle] at listed
    | cons head rest =>
      rw [idle, List.find?_cons_of_pos (by simp [spares head (by simp [idle])])] at first
      rw [Option.some.inj first] at idle
      have evicted : State.Shows ({ before.evict victim .lru with
          toGate := before.toGate.reserve }.setPhase a .granted) cache.miss.evict :=
        shown.evict wf accurate idle rfl rfl
      rw [Lru.evict_miss] at evicted
      -- The key of the victim is idle in the cache as well.
      obtain ⟨entry, found, -⟩ := wf.listed victim listed
      have inside : entry.key ∈ before.idleKeys := (Store.mem_idleKeys accurate).mpr
        ⟨victim, entry, accurate.bound_of_listed found listed, found, listed, rfl⟩
      rw [shown.idle] at inside
      exact ⟨.granted, cache.evict.miss, rfl, evicted, by rw [Lru.room, if_pos crowded],
        .inr fun _ => List.ne_nil_of_mem inside, absent⟩
  | exhausted => exact ⟨.threw .poolExhausted, cache.miss, rfl, shown.congr rfl rfl, rfl⟩
  | parked => exact ⟨.parked before.waiters.length, cache.miss, rfl, shown.congr rfl rfl, rfl⟩

/-- The request of a step, as what it makes of the cache. -/
def told (options : PoolOptions) (s : State κ τ) (action : Action κ τ) (cache : Lru κ) : Lru κ :=
  cache.serve options.capacity (s.request action).toList

/-- `obtain` from the orphan lookup on counts a miss and goes for a slot. -/
theorem Leads.miss {ahead : Lru κ} (leads : Leads options s cache ahead a acquire)
    (neat : Neat options s) (same : ahead = cache) (idle : acquire.phase.reserving = false)
    (absent : s.entries.get? acquire.key = none)
    (effect : MissEffect options s a acquire.key next) : Aligned options next cache := by
  subst same
  obtain ⟨unlisted, -⟩ := leads.shown.not_mem_of_absent neat.core.store neat.accurate absent
  -- An open pool has no orphans, so that the call enters the reservation loop.
  cases effect with
  | resurrected e bound =>
    rw [neat.orphans_eq_none] at bound
    cases bound
  | refused _ closed =>
    rw [neat.opened] at closed
    cases closed
  | slot _ _ _ effect =>
    have shown : s.miss.Shows ahead.miss :=
      ⟨leads.shown.idle, leads.shown.held, leads.shown.hits, congrArg (· + 1) leads.shown.misses,
        leads.shown.created, leads.shown.evicted⟩
    obtain ⟨phase, ahead', calls, shown', done⟩ := effect.ahead neat.core.store neat.accurate
      neat.opened (fun bounded => leads.unreserved neat bounded idle) shown unlisted
      (leads.not_pending neat absent)
    exact leads.move _ calls shown' leads.unheld done

/-- Where every call has settled the pool shows the cache. -/
theorem Aligned.atRest (aligned : Aligned options s cache)
    (settled : ∀ acquire ∈ s.acquires, acquire.phase.stage = .settled) : s.Shows cache := by
  -- If the pool were busy, the call in question would not have settled.
  cases aligned with
  | rest _ shown => exact shown
  | busy a acquire ahead leads =>
    exact absurd (settled acquire (List.mem_of_getElem? leads.called)) leads.done.active

/-- `obtain` has found the live entry of its key. -/
theorem Leads.found {ahead : Lru κ} {e : EntryId} {entry : Entry κ τ}
    (leads : Leads options s cache ahead a acquire) (neat : Neat options s) (same : ahead = cache)
    (bound : s.entries.get? acquire.key = some e) (found : s.heap[e]? = some entry) :
    Aligned options (s.hit.setPhase a (.returned e)) cache := by
  subst same
  have shown := leads.shown
  -- Nobody holds the key, so that it is idle.
  have unheld : entry.refCount = 0 := by
    by_contra held
    exact leads.unheld ((shown.mem_held_of bound found).mpr (Nat.pos_of_ne_zero held))
  have idle := (shown.mem_idle_of neat.core.store neat.accurate bound found).mpr unheld
  have hit : s.hit.Shows ahead.hit := ⟨shown.idle, shown.held, congrArg (· + 1) shown.hits,
    shown.misses, shown.created, shown.evicted⟩
  have moved : State.Shows (s.hit.setPhase a (.returned e)) ahead.hit := hit.congr rfl rfl
  refine leads.move (.returned e) rfl moved leads.unheld ⟨?_, .inl idle⟩
  rw [Lru.borrow, if_pos (.inr idle)]

/-- The release of a handle gives a reference back, whether a call is in flight or not. -/
theorem Aligned.release {h : HandleId} {e : EntryId} {entry : Entry κ τ}
    (aligned : Aligned options s cache) (neat : Neat options s)
    (found : s.heap[e]? = some entry) (bound : s.entries.get? entry.key = some e)
    (held : 0 < entry.refCount)
    (effect : ReleaseEffect
      { s with handles := s.handles.modify h fun handle => { handle with released := true } }
      e next) : Aligned options next (cache.giveBack entry.key) := by
  have given {cache : Lru κ} (shown : s.Shows cache) : next.Shows (cache.giveBack entry.key) := by
    have marked : State.Shows { s with
        handles := s.handles.modify h fun handle => { handle with released := true } } cache :=
      shown.congr rfl rfl
    exact marked.giveBack neat.core.store neat.accurate neat.undrained found bound held effect
  have calls : next.acquires = s.acquires := effect.sameCalls.acquires
  -- A call in flight is of another key, which nobody holds.
  cases aligned with
  | rest settled shown => exact .rest (calls ▸ settled) (given shown)
  | busy a acquire ahead leads =>
    have inside := (leads.shown.mem_held_of bound found).mpr held
    rw [leads.done.held] at inside
    have differ : entry.key ≠ acquire.key := fun same => leads.unheld (same ▸ inside)
    exact .busy a acquire _ ⟨calls ▸ leads.called, calls ▸ leads.others, given leads.shown,
      leads.done.giveBack differ, fun inside => leads.unheld (Lru.mem_of_mem_held_giveBack inside)⟩

/-- A new call settles at once where somebody holds the key, and otherwise it is in flight. -/
theorem Aligned.call {key : κ} (aligned : Aligned options s cache) (neat : Neat options s)
    (settled : ∀ acquire ∈ s.acquires, acquire.phase.stage = .settled) :
    Aligned options (s.acquire key) (s.told options (.acquire key) cache) := by
  have wf := neat.core.store
  have shown := aligned.atRest settled
  cases fast : (s.undisposed s.entries key).filter fun fast => 0 < fast.2.refCount with
  | some pair =>
    obtain ⟨e, entry⟩ := pair
    obtain ⟨present, held⟩ := Option.filter_eq_some_iff.mp fast
    obtain ⟨bound, found, -⟩ := undisposed_eq_some present
    have held : 0 < entry.refCount := by simpa using held
    have asked : s.request (.acquire key) = some (.borrow key) := by
      rw [request, present, Option.any_some, if_pos (by simpa using held)]
    -- It is held in the cache as well, and both count a hit.
    have inside : key ∈ cache.held := (shown.mem_held_of bound found).mpr held
    have hit : s.hit.Shows cache.hit := ⟨shown.idle, shown.held, congrArg (· + 1) shown.hits,
      shown.misses, shown.created, shown.evicted⟩
    have live := (wf.live_at bound found).key
    rw [told, asked]
    simp only [State.acquire, fast]
    refine .rest (fun acquire inside => ?_) ?_
    · have pushed : acquire ∈ s.acquires ++ [⟨key, none, .fulfilled s.handles.length⟩] := by
        rw [← shared_acquires]
        exact inside
      rcases List.mem_append.mp pushed with before | new
      · exact settled acquire before
      · rw [List.mem_singleton.mp new]
        rfl
    · show State.Shows _ (cache.borrow options.capacity key)
      rw [Lru.borrow, if_pos (.inl inside), ← live]
      exact hit.take wf neat.accurate found (live ▸ bound) rfl rfl
  | none =>
    -- The key is not live, or nobody holds it.
    obtain ⟨asked, unheld⟩ : s.request (.acquire key) = none ∧ key ∉ cache.held := by
      rw [shown.mem_held]
      cases present : s.undisposed s.entries key with
      | none =>
        rw [Store.references_unbound (undisposed_entries_eq_none wf present)]
        simp [request, present]
      | some pair =>
        obtain ⟨e, entry⟩ := pair
        obtain ⟨bound, found, -⟩ := undisposed_eq_some present
        have unshared : entry.refCount = 0 := by simpa [present, Option.filter] using fast
        rw [Store.references_bound bound found]
        simp [request, present, unshared]
    rw [told, asked]
    simp only [State.acquire, fast]
    -- So the call goes on, and has asked the cache for nothing so far.
    refine .busy s.acquires.length _ cache ⟨List.getElem?_concat_length .., fun b other differ
      called => ?_, shown.congr rfl rfl, rfl, unheld⟩
    rcases Arena.getElem?_push_cases called with ⟨same, -⟩ | before
    · exact absurd same differ
    · exact settled other (List.mem_of_getElem? before)

/-- Every step keeps the pool aligned with the cache that answers its request. -/
theorem Aligned.next_step {action : Action κ τ} (aligned : Aligned options s cache)
    (neat : Neat options s) (met : s.OneAtATime action)
    (stepped : s.step options action = some next) :
    Aligned options next (s.told options action cache) := by
  by_cases calling : ∃ key, action = .acquire key
  · obtain ⟨key, rfl⟩ := calling
    cases stepped
    exact aligned.call neat met
  have effect := step_effect stepped
  have wf := neat.core.store
  -- A call that moves is the one in flight.
  have leading {a : AcquireId} {acquire : Acquire κ} {phase : Phase}
      (called : s.acquires[a]? = some acquire) (reached : acquire.phase = phase)
      (active : phase.stage ≠ .settled) : ∃ ahead, Leads options s cache ahead a acquire ∧
        phase.Ahead options.capacity acquire.key cache ahead := by
    obtain ⟨ahead, leads⟩ := aligned.leads called (reached ▸ active)
    exact ⟨ahead, leads, reached ▸ leads.done⟩
  cases effect with
  -- These are not among the steps of one call at a time, or are dealt with above.
  | drain | stop | sweep | releasedKey => exact absurd met id
  | shared key | queued key => exact absurd ⟨key, rfl⟩ calling
  -- Steps that ask something of the cache, which does the same.
  | released h handle next found holding effect =>
    obtain ⟨entry, present, held, bound⟩ := neat.entries_of_handle found holding
    have asked : s.request (.releaseHandle h) = some (.giveBack entry.key) := by
      simp [request, found, holding, Store.keyOf, present]
    rw [told, asked]
    exact aligned.release neat present bound held effect
  | delivered a acquire e called phase =>
    obtain ⟨ahead, leads, same, -⟩ := leading called phase (by simp [Phase.stage])
    obtain ⟨entry, found, key, bound⟩ := neat.entries_of_claimed called (by rw [phase]; rfl)
    have asked : s.request (.deliver a) = some (.borrow acquire.key) := by
      simp [request, called, phase]
    rw [told, asked]
    refine leads.settle (.fulfilled s.handles.length) rfl rfl ?_
    show State.Shows _ (cache.borrow options.capacity acquire.key)
    rw [← same, ← key]
    exact leads.shown.take wf neat.accurate found bound rfl rfl
  | failed a acquire error called phase =>
    obtain ⟨ahead, leads, done⟩ := leading called phase (by simp [Phase.stage])
    have asked : s.request (.deliver a) = error.request := by simp [request, called, phase]
    rw [told, asked, ← done.rejected]
    exact leads.settle (.rejected error) rfl rfl (leads.shown.congr rfl rfl)
  -- A step that only moves the call on leaves the pool as far ahead as it was.
  | validating a acquire after e entry called phase turn bound found unheld =>
    obtain ⟨ahead, leads, same⟩ := leading called phase (by simp [Phase.stage])
    exact leads.pass (.validating e) rfl rfl rfl same
  | returned a acquire after e entry called phase turn bound found =>
    obtain ⟨ahead, leads, same⟩ := leading called phase (by simp [Phase.stage])
    exact leads.found neat same bound found
  -- A turn of the reservation loop brings the pool ahead by the miss and the room it makes.
  | missed a acquire after next called phase turn absent effect =>
    obtain ⟨ahead, leads, same⟩ := leading called phase (by simp [Phase.stage])
    exact leads.miss neat same (by simp [phase, Phase.reserving])
      (undisposed_entries_eq_none wf absent) effect
  | discarded a acquire live next called phase effect =>
    obtain ⟨ahead, leads, same⟩ := leading called phase (by simp [Phase.stage])
    obtain ⟨entry, found, key, begun, absent, -⟩ := neat.core.fits called phase
    exact leads.miss neat same (by simp [phase, Phase.reserving]) absent effect
  | resumed a acquire w waiter next called phase found woken effect =>
    obtain ⟨ahead, leads, same⟩ := leading called phase (by simp [Phase.stage])
    obtain ⟨absent, -⟩ := neat.core.fits called phase
    obtain ⟨unlisted, -⟩ := leads.shown.not_mem_of_absent wf neat.accurate absent
    have shown := leads.shown
    rw [show ahead = cache.miss from same] at shown unlisted
    obtain ⟨reached, ahead', calls, shown', done⟩ := effect.ahead wf neat.accurate neat.opened
      (fun bounded => leads.unreserved neat bounded (by simp [phase, Phase.reserving])) shown
      unlisted (leads.not_pending neat absent)
    exact leads.move _ calls shown' leads.unheld done
  -- A call that fails has asked for what the pool has done for it so far.
  | abandoned a acquire w waiter error called phase found rejected =>
    obtain ⟨ahead, leads, same⟩ := leading called phase (by simp [Phase.stage])
    obtain rfl := neat.timely waiter (List.mem_of_getElem? found) error rejected
    exact leads.pass (.threw .acquireTimeout) rfl rfl rfl same
  | breakerless a acquire answer called phase =>
    obtain ⟨ahead, leads, same⟩ := leading called phase (by simp [Phase.stage])
    exact leads.pass (.threw .breakerFactoryFailed) rfl rfl rfl same
  | creating a acquire answer bank called phase resolved =>
    obtain ⟨ahead, leads, same⟩ := leading called phase (by simp [Phase.stage])
    exact leads.pass (.creating s.execs.length) rfl rfl rfl same
  | unvalidated a acquire live called phase =>
    obtain ⟨ahead, leads, same⟩ := leading called phase (by simp [Phase.stage])
    rw [told, request, called]
    exact leads.pass (.threw .validateFailed) rfl rfl rfl same
  | passed a acquire live called phase =>
    obtain ⟨ahead, leads, same⟩ := leading called phase (by simp [Phase.stage])
    obtain ⟨entry, found, key, bound⟩ := neat.entries_of_claimed called (by rw [phase]; rfl)
    rw [told, request, called]
    exact leads.found neat same (key ▸ bound) found
  | refuted a acquire live called phase =>
    obtain ⟨ahead, leads, same⟩ := leading called phase (by simp [Phase.stage])
    obtain ⟨entry, found, key, bound⟩ := neat.entries_of_claimed called (by rw [phase]; rfl)
    obtain ⟨record, found', -, unheld, -⟩ := neat.core.fits called phase
    cases found.symm.trans found'
    have asked : s.request (.validated a (some false)) = some (.drop acquire.key) := by
      simp [request, called]
    rw [told, asked, ← key]
    have done : ahead.drop entry.key = cache.drop entry.key := congrArg (Lru.drop · _) same
    refine leads.move (.discarding live) rfl ?_ leads.unheld done
    exact leads.shown.drop wf neat.accurate found bound unheld rfl rfl
  | execRejected x exec found outstanding =>
    obtain ⟨acquire, called, key, phase⟩ := neat.core.execs.awaited x exec found outstanding
    obtain ⟨ahead, leads, same⟩ := leading called phase (by simp [Phase.stage])
    exact leads.pass (.threw .execFailed) rfl rfl rfl same
  -- The fresh entry is listed, and the handle that follows will unlist it.
  | inserted x exec resource found outstanding opened =>
    obtain ⟨acquire, called, key, phase⟩ := neat.core.execs.awaited x exec found outstanding
    obtain ⟨ahead, leads, same, admits, unlisted⟩ := leading called phase (by simp [Phase.stage])
    obtain ⟨absent, -⟩ := neat.core.fits called phase
    rw [key] at absent
    refine leads.move (.returned s.heap.length) rfl (leads.shown.bring wf absent rfl rfl)
      leads.unheld ⟨?_, admits⟩
    rw [same, ← key]
    exact Lru.take_bring_room unlisted leads.unheld
  -- The pool is never closed.
  | execLate x exec resource found outstanding closed =>
    rw [neat.opened] at closed
    cases closed
  | lateDisposeSettled a acquire called phase =>
    obtain ⟨ahead, -, never⟩ := leading called phase (by simp [Phase.stage])
    exact absurd never id
  -- The remaining steps touch no call.
  | disposeSettled e entry found started =>
    refine aligned.of_unmoved rfl fun cache shown => ?_
    have heap := finishDispose_heap options s e entry
    exact shown.same (Store.idleKeys_of_keyOf (Store.keyOf_modify heap fun _ => rfl))
      (Store.references_modify heap rfl fun _ => rfl) rfl rfl rfl rfl
  | releasedAgain h handle found spent =>
    have asked : s.request (.releaseHandle h) = none := by simp [request, found, spent]
    rw [told, asked]
    exact aligned.of_unmoved rfl fun _ => id
  | releasedNone | start | gcKeyState | emitStats | timeout | clock | drained
  | factoryCalled | factorySettled | breakerChanged =>
    exact aligned.of_unmoved rfl fun _ shown =>
      ⟨shown.idle, shown.held, shown.hits, shown.misses, shown.created, shown.evicted⟩

end State

/-- A pool with what its callers have asked of it so far. -/
structure Asked (κ τ : Type) where
  pool : State κ τ
  asked : List (Lru.Request κ)

namespace Asked

variable [DecidableEq κ]

/-- A new pool, of which nothing has been asked. -/
def init (options : PoolOptions) : Asked κ τ := ⟨.init options, []⟩

/-- A step of the pool, with what it asks. -/
def step (options : PoolOptions) (t : Asked κ τ) (action : Action κ τ) : Option (Asked κ τ) :=
  (t.pool.step options action).map fun next =>
    { pool := next, asked := t.asked ++ (t.pool.request action).toList }

/-- The cache that has answered what was asked. -/
def cache (options : PoolOptions) (t : Asked κ τ) : Lru κ :=
  Lru.empty.serve options.capacity t.asked

/-- No call is in flight. -/
def Settled (t : Asked κ τ) : Prop :=
  ∀ acquire ∈ t.pool.acquires, acquire.phase.stage = .settled

/-- Whether a call is in flight can be checked. -/
instance (t : Asked κ τ) : Decidable t.Settled :=
  inferInstanceAs (Decidable (∀ acquire ∈ t.pool.acquires, acquire.phase.stage = .settled))

variable {options : PoolOptions} {t next : Asked κ τ} {actions : List (Action κ τ)}

/-- A pool that was asked for one call at a time is neat and in line with the cache. -/
structure InLine (options : PoolOptions) (t : Asked κ τ) : Prop where
  neat : t.pool.Neat options
  aligned : t.pool.Aligned options (t.cache options)

/-- Every step of one call at a time keeps the pool in line with the cache. -/
theorem InLine.step {action : Action κ τ} (inLine : InLine options t)
    (met : t.pool.OneAtATime action) (stepped : t.step options action = some next) :
    InLine options next := by
  -- The cache answers what the step asks of it, on top of what was asked before.
  obtain ⟨pool, moved, rfl⟩ := Option.map_eq_some_iff.mp stepped
  refine ⟨inLine.neat.served met moved, ?_⟩
  have aligned := inLine.aligned.next_step inLine.neat met moved
  rw [State.told] at aligned
  rw [cache, Lru.serve, List.foldl_append]
  exact aligned

/-- A run of one call at a time keeps the pool in line with the cache. -/
theorem inLine_throughout (oneAtATime : Runs.Guarded (step options)
      (fun t => t.pool.OneAtATime) (init options : Asked κ τ) actions) :
    Runs.Throughout (step options) (InLine options) (init options) actions :=
  -- Every step of such a run keeps it.
  oneAtATime.throughout (InLine options)
    (fun _ _ _ inLine met stepped => inLine.step met stepped)
    ⟨State.neat_init options, .rest (by simp [init, State.init]) (.init options)⟩

/-- The pool shows the cache that has answered what was asked, and is of its size. -/
def ShowsLru (options : PoolOptions) (t : Asked κ τ) : Prop :=
  t.pool.Shows (t.cache options) ∧ t.pool.entries.size = (t.cache options).size

/-- Where no call is in flight the pool shows the cache. -/
theorem InLine.showsLru (inLine : InLine options t) (settled : t.Settled) :
    ShowsLru options t :=
  -- At rest nothing is ahead, and the sizes follow from what is shown.
  have shown := inLine.aligned.atRest settled
  ⟨shown, shown.size inLine.neat.core.store inLine.neat.accurate⟩

/--
Called one acquire at a time, a pool that is neither drained nor swept is a cache.

It has the keys, the order of eviction, the references and the counters of the cache that answers
the same requests, whatever its callbacks do and however releases of handles fall among them. No
reference is released by key.
-/
theorem showsLru_throughout (options : PoolOptions) (actions : List (Action κ τ))
    (oneAtATime : Runs.Guarded (step options) (fun t => t.pool.OneAtATime) (init options)
      actions) :
    Runs.Throughout (step options) (fun t => t.Settled → ShowsLru options t) (init options)
      actions :=
  -- In line with the cache, the pool shows it wherever it is at rest.
  (inLine_throughout oneAtATime).mono fun _ inLine settled => inLine.showsLru settled

/-- The creation behind a call, by the number of its exec. -/
def creation (a : AcquireId) (x : ExecId) (resource : Option Nat) : List (Action Nat Nat) :=
  [.obtain a, .create a .threw, .factoryCalled x, .factorySettled x resource,
    .execSettled x resource, .deliver a]

/-- A run that evicts the key released first, and then another for a creation that fails. -/
theorem showsLru_throughout_evicting :
    Runs.Throughout (step { max := 2 }) (fun t => t.Settled → ShowsLru { max := 2 } t)
      (init { max := 2 })
      ([.acquire 7] ++ creation 0 0 (some 70) ++ [.acquire 8] ++ creation 1 1 (some 80) ++
        [.acquire 8, .releaseHandle 0, .releaseHandle 1, .acquire 9] ++ creation 3 2 (some 90) ++
        [.releaseHandle 2, .acquire 7] ++ creation 4 3 none ++ [.releaseHandle 3]) :=
  -- No acquire begins while another is in flight.
  showsLru_throughout _ _ (by decide)

/--
A larger pool that was asked the same has every idle key of a smaller one, and misses no more often.

The smaller pool keeps the keys that the larger one would evict last. Neither is drained or swept,
and both are called one acquire at a time.
-/
theorem larger_misses_less {small large : PoolOptions} {t t' : Asked κ τ}
    {actions actions' : List (Action κ τ)}
    (allows : large.max ≤ 0 ∨ (0 < small.max ∧ small.max ≤ large.max))
    (oneAtATime : Runs.Guarded (step small) (fun t => t.pool.OneAtATime) (init small) actions)
    (oneAtATime' : Runs.Guarded (step large) (fun t => t.pool.OneAtATime) (init large) actions')
    (ran : Runs.run (step small) (init small) actions = some t)
    (ran' : Runs.run (step large) (init large) actions' = some t')
    (settled : t.Settled) (settled' : t'.Settled) (same : t.asked = t'.asked) :
    t.pool.idleKeys <:+ t'.pool.idleKeys ∧
      (∀ key, t.pool.references key = t'.pool.references key) ∧
      t'.pool.counters.misses ≤ t.pool.counters.misses ∧
      t'.pool.counters.created ≤ t.pool.counters.created ∧
      t'.pool.counters.hits + t'.pool.counters.misses =
        t.pool.counters.hits + t.pool.counters.misses := by
  -- Both pools show their caches, which were asked the same requests.
  obtain ⟨shown, -⟩ := ((inLine_throughout oneAtATime).of_run ran).showsLru settled
  obtain ⟨shown', -⟩ := ((inLine_throughout oneAtATime').of_run ran').showsLru settled'
  have wider : Lru.Allows small.capacity large.capacity := by
    unfold PoolOptions.capacity
    rcases allows with unbounded | ⟨bounded, less⟩
    · simp [unbounded, Lru.Allows]
    · rw [if_neg (by omega), if_neg (by omega)]
      exact Int.toNat_le_toNat less
  have within := Lru.within_serve wider t.asked
  rw [cache, ← same] at shown'
  rw [shown.idle, shown'.idle, shown.misses, shown'.misses, shown.created, shown'.created,
    shown.hits, shown'.hits]
  refine ⟨within.idle, fun key => ?_, within.misses, within.created, within.lookups⟩
  rw [shown.held, shown'.held]
  exact congrArg (List.count key) within.held

/-- Three visits in a pool that keeps one key, where the second evicts the key of the third. -/
def visitsSmall : List (Action Nat Nat) :=
  [.acquire 7] ++ creation 0 0 (some 70) ++ [.releaseHandle 0, .acquire 8] ++
    creation 1 1 (some 80) ++ [.releaseHandle 1, .acquire 7] ++ creation 2 2 (some 71) ++
    [.releaseHandle 2]

/-- The same visits in a pool that keeps two keys, where the third finds the key of the first. -/
def visitsLarge : List (Action Nat Nat) :=
  [.acquire 7] ++ creation 0 0 (some 70) ++ [.releaseHandle 0, .acquire 8] ++
    creation 1 1 (some 80) ++ [.releaseHandle 1, .acquire 7, .obtain 2, .deliver 2,
    .releaseHandle 2]

/-- The larger pool hits where the smaller one misses. -/
theorem larger_misses_less_visits :
    ∃ t t', Runs.run (step { max := 1 }) (init { max := 1 }) visitsSmall = some t ∧
      Runs.run (step { max := 2 }) (init { max := 2 }) visitsLarge = some t' ∧
      t.pool.idleKeys <:+ t'.pool.idleKeys ∧
      (∀ key, t.pool.references key = t'.pool.references key) ∧
      t'.pool.counters.misses ≤ t.pool.counters.misses ∧
      t'.pool.counters.created ≤ t.pool.counters.created ∧
      t'.pool.counters.hits + t'.pool.counters.misses =
        t.pool.counters.hits + t.pool.counters.misses := by
  have ran : (Runs.run (step { max := 1 }) (init { max := 1 }) visitsSmall).isSome = true := by
    decide
  have ran' : (Runs.run (step { max := 2 }) (init { max := 2 }) visitsLarge).isSome = true := by
    decide
  -- The larger pool still has the first key when it is asked for again.
  exact ⟨_, _, Option.eq_some_of_isSome ran, Option.eq_some_of_isSome ran',
    larger_misses_less (.inr (by decide)) (by decide) (by decide) (Option.eq_some_of_isSome ran)
      (Option.eq_some_of_isSome ran') (by decide +revert) (by decide +revert)
      (by decide +revert)⟩

/--
A pool whose keys are released before the next is acquired keeps those acquired last.

Its idle keys are the distinct keys asked for, in the order of their last use, up to the bound. The
pool is neither drained nor swept, and every visit has got its key.
-/
theorem keeps_recent (bounded : 0 < options.max)
    (oneAtATime : Runs.Guarded (step options) (fun t => t.pool.OneAtATime) (init options) actions)
    (ran : Runs.run (step options) (init options) actions = some t) (settled : t.Settled)
    {keys : List κ} (visited : t.asked = keys.flatMap Lru.visit) :
    t.pool.idleKeys = keys.dedup.drop (keys.dedup.length - options.max.toNat) ∧
      ∀ key, t.pool.references key = 0 := by
  -- What a cache keeps of visits that are over is known.
  obtain ⟨shown, -⟩ := ((inLine_throughout oneAtATime).of_run ran).showsLru settled
  have positive : 0 < options.max.toNat := by omega
  have capacity : options.capacity = some options.max.toNat := if_neg (by omega)
  rw [cache, visited, capacity] at shown
  refine ⟨by rw [shown.idle, Lru.serve_visits positive], fun key => ?_⟩
  rw [shown.held, (Lru.length_serve_visits positive keys).1]
  rfl

/-- Of two keys visited three times, the smaller pool keeps the one visited last. -/
theorem keeps_recent_visits :
    ∃ t, Runs.run (step { max := 1 }) (init { max := 1 }) visitsSmall = some t ∧
      t.pool.idleKeys = [7, 8, 7].dedup.drop ([7, 8, 7].dedup.length - 1) ∧
      ∀ key, t.pool.references key = 0 := by
  have ran : (Runs.run (step { max := 1 }) (init { max := 1 }) visitsSmall).isSome = true := by
    decide
  -- The second visit of 7 evicts 8, which the first one had made room for.
  exact ⟨_, Option.eq_some_of_isSome ran, keeps_recent (by decide) (by decide)
    (Option.eq_some_of_isSome ran) (by decide +revert) (by decide +revert)⟩

end Asked

end RefPool
