import RefPool.Proofs.Effect
import RefPool.Proofs.Frame

/-! Induction rules for the loops of `sweep` and `drain`, over the turns they take. -/

namespace RefPool

variable {κ τ : Type} [DecidableEq κ]

/-- Deleting the key first and unlisting second comes to the same. -/
theorem Store.deleteKey_idleRemove (store : Store κ τ) (e : EntryId) :
    (store.deleteKey e).idleRemove e = store.unlink e := by
  -- The first deletion keeps the flag, and the second lookup the key.
  cases found : store.heap[e]? with
  | none => simp [deleteKey, unlink, idleRemove, found]
  | some entry =>
    cases listed : entry.inIdle <;>
      simp [deleteKey, unlink, idleRemove, update, found, listed]

namespace State

/-- A drain condemns a held live entry and waits for its disposal. -/
def condemnHeld (s : State κ τ) (e : EntryId) (key : κ) : State κ τ :=
  ({ s with toStore := (s.toStore.deleteKey e).orphan key e }.countEviction e
    .drain).addDisposeWaiter e

/-- A drain condemns an orphan and waits for its disposal. -/
def condemnOrphan (s : State κ τ) (e : EntryId) : State κ τ :=
  { s with
    toStore := s.toStore.update e fun entry =>
      { entry with condemned := true } }.addDisposeWaiter e

/-- What a drain writes into a held live entry. -/
theorem condemnHeld_heap (s : State κ τ) (e : EntryId) (key : κ) :
    (s.condemnHeld e key).heap = s.heap.modify e fun entry =>
      { entry with
        condemned := true
        disposeWaiters := entry.disposeWaiters ++ [s.disposalWaits.length] } := by
  -- Three rewrites of the one record compose.
  simp [condemnHeld, addDisposeWaiter, countEviction, emitFor, Store.orphan,
    List.modify_modify_eq, Function.comp_def]

omit [DecidableEq κ] in
/-- What a drain writes into an orphan. -/
theorem condemnOrphan_heap (s : State κ τ) (e : EntryId) :
    (s.condemnOrphan e).heap = s.heap.modify e fun entry =>
      { entry with
        condemned := true
        disposeWaiters := entry.disposeWaiters ++ [s.disposalWaits.length] } := by
  -- Two assignments to one record are one.
  simp [condemnOrphan, addDisposeWaiter, List.modify_modify_eq, Function.comp_def]

/-- Condemning a held live entry touches no other. -/
theorem onlyEntry_condemnHeld {s : State κ τ} {e : EntryId} {entry : Entry κ τ}
    (wf : s.toStore.WellFormed) (found : s.heap[e]? = some entry)
    (bound : s.entries.get? entry.key = some e) :
    Store.OnlyEntry e s.toStore (s.condemnHeld e entry.key).toStore :=
  -- The entry moves to the other map before its fields are assigned.
  (Store.OnlyEntry.orphan found bound (wf.apart _ _ bound)).trans (.update _ e _)

/-- Condemning an orphan touches no other entry. -/
theorem onlyEntry_condemnOrphan (s : State κ τ) (e : EntryId) :
    Store.OnlyEntry e s.toStore (s.condemnOrphan e).toStore :=
  -- Two assignments to the same entry.
  (Store.OnlyEntry.update s.toStore e _).trans (.update _ e _)

/-- What the end of a disposal writes into an entry. -/
theorem finishDispose_heap (options : PoolOptions) (s : State κ τ) (e : EntryId)
    (entry : Entry κ τ) : (s.finishDispose options e entry).heap =
      s.heap.modify e fun entry => { entry with disposed := true, disposeWaiters := [] } := by
  -- Waking the waiters and dropping the breaker leave the heap alone.
  simp [finishDispose, dropBreaker, emit, List.modify_modify_eq, Function.comp_def]

/-- The state in which a drain starts to walk. -/
def draining (s : State κ τ) : State κ τ := s.setClosed.stopTimers.emit .drainStart

/-- A drain commits what its second loop leaves of what its first one leaves. -/
theorem drain_eq {s middle : State κ τ} {visited : List Wait}
    (walked : drainLoop drainEntry s.draining.entries.values s.draining [] = (middle, visited)) :
    s.drain =
      { (drainLoop drainOrphan middle.orphans.values middle visited).1 with
        toStore := (drainLoop drainOrphan middle.orphans.values middle visited).1.toStore.resetIdle
        drains := (drainLoop drainOrphan middle.orphans.values middle visited).1.drains ++
          [{ waits := (drainLoop drainOrphan middle.orphans.values middle visited).2
             fulfilled := false }] } := by
  -- The first walk is the one named in the hypothesis.
  have first : drainLoop drainEntry (s.setClosed.stopTimers.emit .drainStart).entries.values
      (s.setClosed.stopTimers.emit .drainStart) [] = (middle, visited) := walked
  simp only [drain, first]

section Turns

variable {s : State κ τ} {e : EntryId} {entry : Entry κ τ}

/-- A drain disposes of an unheld live entry. -/
theorem drainEntry_idle (found : s.heap[e]? = some entry) (unheld : entry.refCount = 0) :
    s.drainEntry e = ({ s with toStore := s.toStore.unlink e }.dispose e, [.disposing e]) := by
  -- The entry is unlinked in the other order than on eviction.
  simp only [drainEntry, found, unheld, if_true, Store.deleteKey_idleRemove]

/-- A drain orphans a held live entry. -/
theorem drainEntry_held (found : s.heap[e]? = some entry) (held : 0 < entry.refCount)
    (undisposed : entry.disposed = false) :
    s.drainEntry e = (s.condemnHeld e entry.key, [.disposal s.disposalWaits.length]) := by
  -- The disposal has not ended, so the drain gets a wait of its own for it.
  have counted : entry.refCount ≠ 0 := by omega
  simp only [drainEntry, found, if_neg counted, awaitDisposal, undisposed, Bool.false_eq_true,
    if_false]
  rfl

omit [DecidableEq κ] in
/-- A drain condemns an orphan. -/
theorem drainOrphan_eq (found : s.heap[e]? = some entry) (undisposed : entry.disposed = false) :
    s.drainOrphan e = (s.condemnOrphan e, [.disposal s.disposalWaits.length]) := by
  -- Since the entry is not disposed of, the drain awaits its disposal.
  simp only [drainOrphan, found, awaitDisposal, undisposed, Bool.false_eq_true, if_false]
  rfl

end Turns

omit [DecidableEq κ] in
/-- What every turn of a drain loop keeps holds when the loop ends. -/
theorem drainLoop_rule (turn : State κ τ → EntryId → State κ τ × List Wait)
    {P : List EntryId → State κ τ → List Wait → Prop}
    (step : ∀ e rest s waits, P (e :: rest) s waits →
      P rest (turn s e).1 (waits ++ (turn s e).2))
    (nodes : List EntryId) (s : State κ τ) (waits : List Wait) (start : P nodes s waits) :
    P [] (drainLoop turn nodes s waits).1 (drainLoop turn nodes s waits).2 := by
  -- The loop visits the nodes in order and gathers what to wait for.
  induction nodes generalizing s waits with
  | nil => exact start
  | cons e rest ih => exact ih _ _ (step e rest s waits start)

/-- The nodes left to visit are exactly the live entries left. -/
def Remaining (rest : List EntryId) (s : State κ τ) : Prop :=
  rest.Nodup ∧ ∀ e, e ∈ rest ↔ ∃ key, s.entries.get? key = some e

/-- The live entries are what the walk over them starts with. -/
theorem remaining_values {s : State κ τ} (wf : s.toStore.WellFormed) :
    Remaining s.entries.values s :=
  -- The walk goes through the values of the map, each of them once.
  ⟨wf.nodup_entries, fun _ => OrderedMap.mem_values⟩

/-- Unbinding the entry visited leaves the others to visit. -/
theorem Remaining.tail {s next : State κ τ} {e : EntryId} {rest : List EntryId}
    {entry : Entry κ τ} (wf : s.toStore.WellFormed) (remaining : Remaining (e :: rest) s)
    (found : s.heap[e]? = some entry) (bound : s.entries.get? entry.key = some e)
    (unbound : next.entries = s.entries.delete entry.key) : Remaining rest next := by
  -- The deleted key is the one of the entry visited, and no other entry has it.
  obtain ⟨once, listed⟩ := remaining
  obtain ⟨absent, once⟩ := List.nodup_cons.mp once
  refine ⟨once, fun other => ⟨fun inside => ?_, ?_⟩⟩
  · obtain ⟨key, live⟩ := (listed other).mp (List.mem_cons_of_mem _ inside)
    refine ⟨key, ?_⟩
    rw [unbound, OrderedMap.get?_delete_ne _, live]
    rintro rfl
    cases bound.symm.trans live
    exact absent inside
  · rintro ⟨key, live⟩
    rw [unbound] at live
    obtain ⟨differ, before⟩ := OrderedMap.get?_of_delete live
    rcases List.mem_cons.mp ((listed other).mpr ⟨key, before⟩) with rfl | inside
    · exact absurd (wf.live_at before found).key.symm differ
    · exact inside

/-- One of the waits of a drain ends with the disposal of an entry. -/
def Awaited (s : State κ τ) (waits : List Wait) (e : EntryId) : Prop :=
  ∃ (i : Nat) (wait : DisposalWait), Wait.disposal i ∈ waits ∧ s.disposalWaits[i]? = some wait ∧
    wait.entry = e

omit [DecidableEq κ] in
/-- Condemning an orphan awaits it, and the ones awaited before. -/
theorem awaited_condemnOrphan {s : State κ τ} {waits : List Wait} {e other : EntryId}
    (covered : other = e ∨ s.Awaited waits other) :
    (s.condemnOrphan e).Awaited (waits ++ [.disposal s.disposalWaits.length]) other := by
  -- The new wait is for the orphan, and the older ones keep their positions.
  rcases covered with rfl | ⟨i, wait, listed, found, same⟩
  · exact ⟨s.disposalWaits.length, ⟨other, false⟩, by simp,
      by simp [condemnOrphan, addDisposeWaiter], rfl⟩
  · exact ⟨i, wait, List.mem_append_left _ listed, Arena.getElem?_push_of_some _ found, same⟩

/--
The rule for the walk of `drain` over the live entries: what holds when it starts and survives
each turn holds when the live map is empty.

What holds may speak of the entries that are still ahead.
-/
theorem live_rule {P : List EntryId → State κ τ → List Wait → Prop} {s : State κ τ}
    (wf : s.toStore.WellFormed)
    (idle : ∀ rest (s : State κ τ) waits (e : Nat) entry, s.toStore.WellFormed → e ∉ rest →
      P (e :: rest) s waits → s.heap[e]? = some entry → s.entries.get? entry.key = some e →
      entry.refCount = 0 →
      P rest ({ s with toStore := s.toStore.unlink e }.dispose e) (waits ++ [.disposing e]))
    (held : ∀ rest (s : State κ τ) waits (e : Nat) entry, s.toStore.WellFormed → e ∉ rest →
      P (e :: rest) s waits → s.heap[e]? = some entry → s.entries.get? entry.key = some e →
      0 < entry.refCount →
      P rest (s.condemnHeld e entry.key) (waits ++ [.disposal s.disposalWaits.length]))
    (start : P s.entries.values s []) :
    ∃ last waits, drainLoop drainEntry s.entries.values s [] = (last, waits) ∧
      last.toStore.WellFormed ∧ P [] last waits ∧ ∀ key, last.entries.get? key = none := by
  have walked := drainLoop_rule drainEntry
    (P := fun rest s waits => s.toStore.WellFormed ∧ P rest s waits ∧ Remaining rest s) ?step
    s.entries.values s [] ⟨wf, start, remaining_values wf⟩
  case step =>
    rintro e rest s waits ⟨shape, here, remaining⟩
    have absent : e ∉ rest := (List.nodup_cons.mp remaining.1).1
    obtain ⟨key, bound⟩ := (remaining.2 e).mp List.mem_cons_self
    obtain ⟨entry, found, promised⟩ := shape.live key e bound
    obtain rfl := promised.key
    -- Either way the entry leaves the live map, for its disposal or as an orphan.
    by_cases unheld : entry.refCount = 0
    · rw [drainEntry_idle found unheld]
      refine ⟨shape.evict found unheld,
        idle rest s waits e entry shape absent here found bound unheld, ?_⟩
      exact remaining.tail shape found bound (Store.evict_entries _ e found)
    · have undisposed := (shape.sound e entry found).undisposed promised.undisposed
      have counted : 0 < entry.refCount := by omega
      rw [drainEntry_held found counted undisposed]
      refine ⟨(shape.orphan found bound counted).setWaiters _,
        held rest s waits e entry shape absent here found bound counted, ?_⟩
      exact remaining.tail shape found bound (Store.deleteKey_entries found)
  obtain ⟨sound, between, nothing⟩ := walked
  refine ⟨_, _, rfl, sound, between, fun key => ?_⟩
  cases bound : (drainLoop drainEntry s.entries.values s []).1.entries.get? key with
  | none => rfl
  | some e => exact absurd ((nothing.2 e).mpr ⟨key, bound⟩) List.not_mem_nil

/--
The rule for `drain`: what holds when it starts to walk and survives each of its turns holds of
the state it then commits, in which no key is live and every orphan is awaited.
-/
theorem drain_rule_awaited {P : State κ τ → List Wait → Prop} {s : State κ τ}
    (wf : s.toStore.WellFormed)
    (idle : ∀ (s : State κ τ) waits (e : Nat) entry, s.toStore.WellFormed → P s waits →
      s.heap[e]? = some entry → s.entries.get? entry.key = some e → entry.refCount = 0 →
      P ({ s with toStore := s.toStore.unlink e }.dispose e) (waits ++ [.disposing e]))
    (held : ∀ (s : State κ τ) waits (e : Nat) entry, s.toStore.WellFormed → P s waits →
      s.heap[e]? = some entry → s.entries.get? entry.key = some e → 0 < entry.refCount →
      P (s.condemnHeld e entry.key) (waits ++ [.disposal s.disposalWaits.length]))
    (orphan : ∀ (s : State κ τ) waits (e : Nat) entry, s.toStore.WellFormed → P s waits →
      s.heap[e]? = some entry → s.orphans.get? entry.key = some e →
      (∀ key, s.entries.get? key = none) →
      P (s.condemnOrphan e) (waits ++ [.disposal s.disposalWaits.length]))
    (start : P s.draining []) :
    ∃ (last : State κ τ) (waits : List Wait), last.toStore.WellFormed ∧ P last waits ∧
      (∀ key, last.entries.get? key = none) ∧
      (∀ key e, last.orphans.get? key = some e → last.Awaited waits e) ∧
      s.drain = { last with
        toStore := last.toStore.resetIdle
        drains := last.drains ++ [{ waits, fulfilled := false }] } := by
  -- The first loop empties the live map.
  obtain ⟨middle, visited, walked, sound, between, emptied⟩ := live_rule (s := s.draining)
    (P := fun _ s waits => P s waits) wf
    (fun _ s waits e entry shape _ here => idle s waits e entry shape here)
    (fun _ s waits e entry shape _ here => held s waits e entry shape here) start
  -- The second loop condemns the orphans without moving them.
  have orphaned := drainLoop_rule drainOrphan
    (P := fun rest s waits => (s.toStore.WellFormed ∧ P s waits) ∧
      (∀ key, s.entries.get? key = none) ∧ (∀ e ∈ rest, ∃ key, s.orphans.get? key = some e) ∧
      ∀ key e, s.orphans.get? key = some e → e ∈ rest ∨ s.Awaited waits e) ?turn
    middle.orphans.values middle visited
    ⟨⟨sound, between⟩, emptied, fun e inside => OrderedMap.mem_values.mp inside,
      fun key e bound => .inl (OrderedMap.mem_values.mpr ⟨key, bound⟩)⟩
  case turn =>
    rintro e rest s waits ⟨⟨shape, here⟩, emptied, bound, covered⟩
    obtain ⟨key, orphaned⟩ := bound e List.mem_cons_self
    obtain ⟨entry, found, promised⟩ := shape.orphaned key e orphaned
    obtain rfl := promised.key
    rw [drainOrphan_eq found ((shape.sound e entry found).undisposed promised.undisposed)]
    refine ⟨⟨(shape.condemn found promised.held).setWaiters _,
      orphan s waits e entry shape here found orphaned emptied⟩, emptied,
      fun other inside => bound other (List.mem_cons_of_mem _ inside), fun key other bound => ?_⟩
    -- An orphan is visited already, visited now, or still to come.
    rcases covered key other bound with visit | before
    · rcases List.mem_cons.mp visit with same | later
      · exact .inr (awaited_condemnOrphan (.inl same))
      · exact .inl later
    · exact .inr (awaited_condemnOrphan (.inr before))
  exact ⟨_, _, orphaned.1.1, orphaned.1.2, orphaned.2.1, fun key e bound =>
    (orphaned.2.2.2 key e bound).resolve_left List.not_mem_nil, drain_eq walked⟩

/-- The rule for `drain`, without what it waits for. -/
theorem drain_rule {P : State κ τ → List Wait → Prop} {s : State κ τ}
    (wf : s.toStore.WellFormed)
    (idle : ∀ (s : State κ τ) waits (e : Nat) entry, s.toStore.WellFormed → P s waits →
      s.heap[e]? = some entry → s.entries.get? entry.key = some e → entry.refCount = 0 →
      P ({ s with toStore := s.toStore.unlink e }.dispose e) (waits ++ [.disposing e]))
    (held : ∀ (s : State κ τ) waits (e : Nat) entry, s.toStore.WellFormed → P s waits →
      s.heap[e]? = some entry → s.entries.get? entry.key = some e → 0 < entry.refCount →
      P (s.condemnHeld e entry.key) (waits ++ [.disposal s.disposalWaits.length]))
    (orphan : ∀ (s : State κ τ) waits (e : Nat) entry, s.toStore.WellFormed → P s waits →
      s.heap[e]? = some entry → s.orphans.get? entry.key = some e →
      (∀ key, s.entries.get? key = none) →
      P (s.condemnOrphan e) (waits ++ [.disposal s.disposalWaits.length]))
    (start : P s.draining []) :
    ∃ (last : State κ τ) (waits : List Wait), last.toStore.WellFormed ∧ P last waits ∧
      (∀ key, last.entries.get? key = none) ∧
      s.drain = { last with
        toStore := last.toStore.resetIdle
        drains := last.drains ++ [{ waits, fulfilled := false }] } := by
  -- What a drain awaits is forgotten here.
  obtain ⟨last, waits, sound, kept, nothing, -, same⟩ :=
    drain_rule_awaited wf idle held orphan start
  exact ⟨last, waits, sound, kept, nothing, same⟩

/-- A drain rejects the waiters and closes the pool; breakers and clock are as they were. -/
theorem drain_frame {s : State κ τ} (wf : s.toStore.WellFormed) :
    s.drain.toGate = s.toGate.rejectWaiters .poolClosed ∧ s.drain.closed = true ∧
      s.drain.toBreakerBank = s.toBreakerBank ∧ s.drain.now = s.now := by
  -- Closing comes before the turns, and these touch the store, the counters and the waits.
  obtain ⟨last, waits, -, kept, -, same⟩ := drain_rule (s := s)
    (P := fun next _ => next.toGate = s.toGate.rejectWaiters .poolClosed ∧ next.closed = true ∧
      next.toBreakerBank = s.toBreakerBank ∧ next.now = s.now) wf
    (fun _ _ _ _ _ kept _ _ _ => kept) (fun _ _ _ _ _ kept _ _ _ => kept)
    (fun _ _ _ _ _ kept _ _ _ => kept) ⟨rfl, rfl, rfl, rfl⟩
  rw [same]
  exact kept

/--
The rule for `sweep`: what holds of a well-formed store before the walk and survives the eviction
of a listed entry without pending acquires holds after it.
-/
theorem sweepFrom_rule (cutoff : Int) {P : State κ τ → Prop}
    (turn : ∀ (s : State κ τ) (node : Nat) entry, s.toStore.WellFormed → P s →
      s.heap[node]? = some entry → node ∈ s.idle → s.nodePending node = false →
      P ((s.evict node .ttl).wakeCapacityWaiter))
    (nodes : List EntryId) (s : State κ τ) (swept : Nat) (wf : s.toStore.WellFormed)
    (start : P s) (once : nodes.Nodup) (listed : ∀ node ∈ nodes, node ∈ s.idle) :
    (sweepFrom cutoff nodes s swept).1.toStore.WellFormed ∧
      P (sweepFrom cutoff nodes s swept).1 := by
  -- The walk is over a snapshot, and the entries ahead are still listed when it gets to them.
  induction nodes generalizing s swept with
  | nil => exact ⟨wf, start⟩
  | cons node rest ih =>
    obtain ⟨absent, once⟩ := List.nodup_cons.mp once
    have inside := listed node List.mem_cons_self
    have later : ∀ other ∈ rest, other ∈ s.idle :=
      fun other inside => listed other (List.mem_cons_of_mem _ inside)
    obtain ⟨entry, found, -⟩ := wf.listed node inside
    simp only [sweepFrom, found]
    -- The list is ordered by release, so the first entry too young ends the walk.
    split
    · exact ⟨wf, start⟩
    · split
      · exact ih s swept wf start once later
      · rename_i spared
        refine ih _ _ (wf.evict found (wf.unheld_of_listed inside found))
          (turn s node entry wf start found inside (by simpa using spared)) once
          fun other ahead => ?_
        -- The entries further down the list are still on it.
        have still : other ∈ ((s.toStore.unlink node).beginDispose node).idle := by
          rw [Store.beginDispose_idle, Store.unlink_idle, wf.mem_idleRemove]
          exact ⟨fun same => absent (same ▸ ahead), later other ahead⟩
        exact still

/-- The rule for `sweep`, with the announcement of how many entries went. -/
theorem sweep_rule (options : PoolOptions) {P : State κ τ → Prop} {s : State κ τ}
    (wf : s.toStore.WellFormed)
    (turn : ∀ (s : State κ τ) (node : Nat) entry, s.toStore.WellFormed → P s →
      s.heap[node]? = some entry → node ∈ s.idle → s.nodePending node = false →
      P ((s.evict node .ttl).wakeCapacityWaiter))
    (announce : ∀ s swept, P s → P (s.emit (.idleSweep swept)))
    (start : P s) : (s.sweep options).toStore.WellFormed ∧ P (s.sweep options) := by
  -- Without a time to live nothing is walked, and a walk that evicts nothing is not announced.
  unfold sweep
  split
  · exact ⟨wf, start⟩
  · split
    · exact ⟨wf, start⟩
    · rename_i ttl _ _
      obtain ⟨sound, walked⟩ := sweepFrom_rule (s.now - ttl) turn s.idle s 0 wf start wf.once
        fun _ inside => inside
      dsimp only
      split
      · exact ⟨sound, announce _ _ walked⟩
      · exact ⟨sound, walked⟩

end State

end RefPool
