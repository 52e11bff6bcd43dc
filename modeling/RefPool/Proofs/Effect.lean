import RefPool.Model.Step
import RefPool.Proofs.StoreLaws

/-! What each step can do, said once: every invariant is proved by cases on these effects. -/

namespace RefPool.State

variable {κ τ : Type} [DecidableEq κ]

/-- What both eviction walks do to the entry they pick. -/
def evict (s : State κ τ) (e : EntryId) (reason : EvictReason) : State κ τ :=
  ({ s with toStore := s.toStore.unlink e }.countEviction e reason).dispose e

/-- Eviction skips an entry by the mark of its key. -/
theorem nodePending_of_found {s : State κ τ} {node : EntryId} {entry : Entry κ τ}
    (found : s.heap[node]? = some entry) :
    s.nodePending node = s.toKeyState.isPending entry.key := by
  -- The entry is read for its key.
  simp [nodePending, found]

/-- What the release of its last reference writes into an entry. -/
def lastDrop (now : Int) (entry : Entry κ τ) : Entry κ τ :=
  { entry with refCount := entry.refCount - 1, lastReleasedAt := now }

omit [DecidableEq κ] in
/-- Dropping the last reference and stamping the entry is one assignment. -/
theorem stampReleased_dropReference (s : State κ τ) (e : EntryId) :
    ((s.dropReference e).stampReleased e).toStore = s.toStore.update e (lastDrop s.now) :=
  -- The second assignment acts on what the first has written.
  Store.update_update _ _

/-- The outcomes of one turn of the reservation loop. -/
inductive SlotEffect (options : PoolOptions) (s : State κ τ) (a : AcquireId) :
    State κ τ → Prop
  /-- There is no bound to respect. -/
  | unbounded (disabled : options.max ≤ 0) : SlotEffect options s a (s.setPhase a .granted)
  /-- The pool has been closed. -/
  | refused (bounded : 0 < options.max) (closed : s.closed = true) :
      SlotEffect options s a (s.setPhase a (.threw .poolClosed))
  /-- There is room below the bound. -/
  | reserved (bounded : 0 < options.max) (opened : s.closed = false)
      (room : s.entries.size + s.reserved < options.max) :
      SlotEffect options s a ({ s with toGate := s.toGate.reserve }.setPhase a .granted)
  /-- An idle entry makes room. -/
  | evicted (victim : EntryId) (bounded : 0 < options.max) (opened : s.closed = false)
      (full : options.max ≤ s.entries.size + s.reserved) (listed : victim ∈ s.idle)
      (spared : s.nodePending victim = false)
      (first : s.idle.find? (fun node => !s.nodePending node) = some victim) :
      SlotEffect options s a
        ({ s.evict victim .lru with toGate := s.toGate.reserve }.setPhase a .granted)
  /-- Too many acquires wait already. -/
  | exhausted (bounded : 0 < options.max) (opened : s.closed = false)
      (full : options.max ≤ s.entries.size + s.reserved)
      (busy : ∀ node ∈ s.idle, s.nodePending node = true) :
      SlotEffect options s a (s.setPhase a (.threw .poolExhausted))
  /-- The acquire parks. -/
  | parked (bounded : 0 < options.max) (opened : s.closed = false)
      (full : options.max ≤ s.entries.size + s.reserved)
      (busy : ∀ node ∈ s.idle, s.nodePending node = true) :
      SlotEffect options s a
        ({ s with toGate := s.toGate.park options.timeout s.now }.setPhase a
          (.parked s.waiters.length))

/-- The outcomes of `obtain` from the orphan lookup on. -/
inductive MissEffect (options : PoolOptions) (s : State κ τ) (a : AcquireId) (key : κ) :
    State κ τ → Prop
  /-- An orphan comes back to the live map. -/
  | resurrected (e : EntryId) (bound : s.orphans.get? key = some e) :
      MissEffect options s a key
        ((({ s with toStore := s.toStore.resurrect key e }.hit).emit
          (.orphanResurrect key)).setPhase a (.returned e))
  /-- The pool has been closed. -/
  | refused (absent : s.undisposed s.orphans key = none) (closed : s.closed = true) :
      MissEffect options s a key (s.setPhase a (.threw .poolClosed))
  /-- The acquire goes for a slot. -/
  | slot (next : State κ τ) (absent : s.undisposed s.orphans key = none)
      (opened : s.closed = false) (effect : SlotEffect options s.miss a next) :
      MissEffect options s a key next

/-- The outcomes of dropping a reference. -/
inductive ReleaseEffect (s : State κ τ) (e : EntryId) : State κ τ → Prop
  /-- There is no reference to drop. -/
  | ignored (spent : ∀ entry, s.heap[e]? = some entry →
      entry.disposed = true ∨ entry.refCount = 0) : ReleaseEffect s e s
  /-- Other references remain. -/
  | dropped (entry : Entry κ τ) (found : s.heap[e]? = some entry)
      (undisposed : entry.disposed = false) (shared : 1 < entry.refCount) :
      ReleaseEffect s e (s.dropReference e)
  /-- The last reference of a condemned entry goes, and its disposal starts. -/
  | retired (entry : Entry κ τ) (found : s.heap[e]? = some entry)
      (undisposed : entry.disposed = false) (last : entry.refCount = 1)
      (doomed : entry.condemned = true ∨ s.orphans.get? entry.key = some e) :
      ReleaseEffect s e
        ({ (s.dropReference e).stampReleased e with
          toStore := ((s.dropReference e).stampReleased e).toStore.removeEntry e }.dispose e)
  /-- The last reference of another entry goes, and it becomes evictable. -/
  | freed (entry : Entry κ τ) (found : s.heap[e]? = some entry)
      (undisposed : entry.disposed = false) (last : entry.refCount = 1)
      (kept : entry.condemned = false) (bound : s.orphans.get? entry.key ≠ some e) :
      ReleaseEffect s e
        ({ (s.dropReference e).stampReleased e with
          toStore := ((s.dropReference e).stampReleased e).toStore.idleAppend
            e }.wakeCapacityWaiter)

/-- The outcomes of a step, one constructor for each way it can go. -/
inductive Effect (options : PoolOptions) (s : State κ τ) : Action κ τ → State κ τ → Prop
  /-- The fast path of `acquire`: the entry is live and held. -/
  | shared (key : κ) (e : EntryId) (entry : Entry κ τ) (bound : s.entries.get? key = some e)
      (found : s.heap[e]? = some entry) (undisposed : entry.disposed = false)
      (held : 0 < entry.refCount) :
      Effect options s (.acquire key)
        ((({ s with
          toKeyState := s.toKeyState.incPending key
          acquires := s.acquires ++
            [({ key, cell := none, phase := .queued none } : Acquire κ)] }.hit).checkout e).conclude
          s.acquires.length key (.fulfilled s.handles.length))
  /-- `acquire` chains `obtain` on the mutex of its key. -/
  | queued (key : κ) :
      Effect options s (.acquire key)
        { s with
          toKeyState :=
            (s.toKeyState.incPending key).runExclusive key s.acquires.length s.now
          acquires := s.acquires ++
            [{ key
               cell := ((s.toKeyState.incPending key).runExclusive key s.acquires.length
                 s.now).mutexes.get? key
               phase := .queued ((s.toKeyState.incPending key).tailOf key) }] }
  /-- A handle is released again. -/
  | releasedAgain (h : HandleId) (handle : Handle) (found : s.handles[h]? = some handle)
      (spent : handle.released = true) : Effect options s (.releaseHandle h) s
  /-- A handle is released for the first time. -/
  | released (h : HandleId) (handle : Handle) (next : State κ τ)
      (found : s.handles[h]? = some handle) (holding : handle.released = false)
      (effect : ReleaseEffect
        { s with handles := s.handles.modify h fun handle => { handle with released := true } }
        handle.entry next) :
      Effect options s (.releaseHandle h) next
  /-- `release` finds no entry under the key. -/
  | releasedNone (key : κ) : Effect options s (.release key) s
  /-- `release` drops a reference of the live entry, or of the orphan. -/
  | releasedKey (key : κ) (e : EntryId) (next : State κ τ)
      (bound : s.entries.get? key = some e ∨ s.orphans.get? key = some e)
      (effect : ReleaseEffect s e next) : Effect options s (.release key) next
  | drain : Effect options s .drain s.drain
  | stop : Effect options s .stop s.stop
  /-- The pool opens, and its intervals are armed or left as they are. -/
  | start (started sweepTimer mutexTimer statsTimer : Bool) :
      Effect options s .start
        { s with closed := false, started, sweepTimer, mutexTimer, statsTimer }
  | sweep (armed : s.sweepTimer = true) : Effect options s .sweep (s.sweep options)
  /-- Mutex cells are collected, where the option is set, and breakers are dropped. -/
  | gcKeyState (keys : KeyState κ) (bank : BreakerBank κ)
      (collected : keys = s.toKeyState ∨ ∃ cutoff, keys = s.toKeyState.gcMutexes cutoff) :
      Effect options s .gcKeyState { s with toKeyState := keys, toBreakerBank := bank }
  | emitStats : Effect options s .emitStats s.emitStats
  | timeout (w : WaiterId) (waiter : CapacityWaiter) (found : s.waiters[w]? = some waiter)
      (armed : waiter.timer.isSome = true) :
      Effect options s (.timeout w)
        { s with toGate := s.toGate.settleWaiter w (.rejected .acquireTimeout) }
  | clock (now : Int) : Effect options s (.clock now) { s with now }
  /-- `obtain` finds an idle live entry and validates it. -/
  | validating (a : AcquireId) (acquire : Acquire κ) (after : Option AcquireId) (e : EntryId)
      (entry : Entry κ τ) (called : s.acquires[a]? = some acquire)
      (phase : acquire.phase = .queued after) (turn : s.turnOf after = true)
      (bound : s.entries.get? acquire.key = some e) (found : s.heap[e]? = some entry)
      (unheld : entry.refCount = 0) :
      Effect options s (.obtain a) (s.setPhase a (.validating e))
  /-- `obtain` finds a live entry and returns it. -/
  | returned (a : AcquireId) (acquire : Acquire κ) (after : Option AcquireId) (e : EntryId)
      (entry : Entry κ τ) (called : s.acquires[a]? = some acquire)
      (phase : acquire.phase = .queued after) (turn : s.turnOf after = true)
      (bound : s.entries.get? acquire.key = some e) (found : s.heap[e]? = some entry) :
      Effect options s (.obtain a) (s.hit.setPhase a (.returned e))
  /-- `obtain` finds no live entry. -/
  | missed (a : AcquireId) (acquire : Acquire κ) (after : Option AcquireId) (next : State κ τ)
      (called : s.acquires[a]? = some acquire) (phase : acquire.phase = .queued after)
      (turn : s.turnOf after = true) (absent : s.undisposed s.entries acquire.key = none)
      (effect : MissEffect options s a acquire.key next) : Effect options s (.obtain a) next
  /-- `obtain` goes on after disposing of an entry that failed validation. -/
  | discarded (a : AcquireId) (acquire : Acquire κ) (live : EntryId) (next : State κ τ)
      (called : s.acquires[a]? = some acquire) (phase : acquire.phase = .discarding live)
      (effect : MissEffect options s a acquire.key next) : Effect options s (.discarded a) next
  /-- A woken acquire tries for a slot again. -/
  | resumed (a : AcquireId) (acquire : Acquire κ) (w : WaiterId) (waiter : CapacityWaiter)
      (next : State κ τ) (called : s.acquires[a]? = some acquire)
      (phase : acquire.phase = .parked w) (found : s.waiters[w]? = some waiter)
      (woken : waiter.promise = .resolved) (effect : SlotEffect options s a next) :
      Effect options s (.resume a) next
  /-- A parked acquire learns that it was rejected. -/
  | abandoned (a : AcquireId) (acquire : Acquire κ) (w : WaiterId) (waiter : CapacityWaiter)
      (error : PoolError) (called : s.acquires[a]? = some acquire)
      (phase : acquire.phase = .parked w) (found : s.waiters[w]? = some waiter)
      (rejected : waiter.promise = .rejected error) :
      Effect options s (.resume a) (s.setPhase a (.threw error))
  /-- The breaker factory throws. -/
  | breakerless (a : AcquireId) (acquire : Acquire κ) (answer : BreakerMade)
      (called : s.acquires[a]? = some acquire) (phase : acquire.phase = .granted) :
      Effect options s (.create a answer)
        (s.releaseReservation.setPhase a (.threw .breakerFactoryFailed))
  /-- `breaker.exec` is called. -/
  | creating (a : AcquireId) (acquire : Acquire κ) (answer : BreakerMade)
      (bank : BreakerBank κ) (called : s.acquires[a]? = some acquire)
      (phase : acquire.phase = .granted)
      (resolved : s.toBreakerBank.resolveBreaker options.breaker acquire.key answer =
        some bank) :
      Effect options s (.create a answer)
        ({ s with
          toBreakerBank := bank
          execs := s.execs ++
            [({ acquire := a, key := acquire.key, outcome := .pending } : Exec κ τ)] }.setPhase a
          (.creating s.execs.length))
  /-- `acquire` checks its entry out and fulfils. -/
  | delivered (a : AcquireId) (acquire : Acquire κ) (e : EntryId)
      (called : s.acquires[a]? = some acquire) (phase : acquire.phase = .returned e) :
      Effect options s (.deliver a) (s.deliver a acquire (.ok e))
  /-- `acquire` rejects. -/
  | failed (a : AcquireId) (acquire : Acquire κ) (error : PoolError)
      (called : s.acquires[a]? = some acquire) (phase : acquire.phase = .threw error) :
      Effect options s (.deliver a) (s.deliver a acquire (.error error))
  /-- A drain fulfils. -/
  | drained (d : DrainId) (call : DrainCall) (found : s.drains[d]? = some call)
      (waited : call.waits.all s.waitResolved = true) :
      Effect options s (.drained d) (s.drained d)
  /-- `options.validate` rejects. -/
  | unvalidated (a : AcquireId) (acquire : Acquire κ) (live : EntryId)
      (called : s.acquires[a]? = some acquire) (phase : acquire.phase = .validating live) :
      Effect options s (.validated a none) (s.setPhase a (.threw .validateFailed))
  /-- The entry passes validation. -/
  | passed (a : AcquireId) (acquire : Acquire κ) (live : EntryId)
      (called : s.acquires[a]? = some acquire) (phase : acquire.phase = .validating live) :
      Effect options s (.validated a (some true)) (s.hit.setPhase a (.returned live))
  /-- The entry fails validation and is disposed of. -/
  | refuted (a : AcquireId) (acquire : Acquire κ) (live : EntryId)
      (called : s.acquires[a]? = some acquire) (phase : acquire.phase = .validating live) :
      Effect options s (.validated a (some false))
        (({ s with toStore := s.toStore.removeEntry live }.dispose live).setPhase a
          (.discarding live))
  | factoryCalled (x : ExecId) (exec : Exec κ τ) (found : s.execs[x]? = some exec) :
      Effect options s (.factoryCalled x)
        { s with factoryCalls := s.factoryCalls ++ [{ exec := x, outcome := .pending }] }
  | factorySettled (c : FactoryId) (resource : Option τ) (call : FactoryCall τ)
      (found : s.factoryCalls[c]? = some call) (outstanding : call.outcome = .pending) :
      Effect options s (.factorySettled c resource)
        { s with
          factoryCalls := s.factoryCalls.modify c fun call =>
            { call with outcome := .ofAnswer resource } }
  /-- `breaker.exec` rejects. -/
  | execRejected (x : ExecId) (exec : Exec κ τ) (found : s.execs[x]? = some exec)
      (outstanding : exec.outcome = .pending) :
      Effect options s (.execSettled x none)
        (({ s with
          execs := s.execs.modify x fun exec =>
            { exec with outcome := .rejected } }.releaseReservation).setPhase exec.acquire
          (.threw .execFailed))
  /-- `breaker.exec` fulfils after the pool was closed. -/
  | execLate (x : ExecId) (exec : Exec κ τ) (resource : τ) (found : s.execs[x]? = some exec)
      (outstanding : exec.outcome = .pending) (closed : s.closed = true) :
      Effect options s (.execSettled x (some resource))
        ({ { s with
            execs := s.execs.modify x fun exec =>
              { exec with outcome := .fulfilled resource } }.releaseReservation with
          disposeCalls := s.disposeCalls ++ [(resource, exec.key)] }.setPhase exec.acquire
          .closing)
  /-- `breaker.exec` fulfils and the entry is inserted. -/
  | inserted (x : ExecId) (exec : Exec κ τ) (resource : τ) (found : s.execs[x]? = some exec)
      (outstanding : exec.outcome = .pending) (opened : s.closed = false) :
      Effect options s (.execSettled x (some resource))
        (({ s with
          execs := s.execs.modify x fun exec =>
            { exec with outcome := .fulfilled resource } }.insertEntry exec.key
          resource).setPhase exec.acquire (.returned s.heap.length))
  | disposeSettled (e : EntryId) (entry : Entry κ τ) (found : s.heap[e]? = some entry)
      (started : entry.disposing = true) (unfinished : entry.disposed = false) :
      Effect options s (.disposeSettled e) (s.finishDispose options e entry)
  | lateDisposeSettled (a : AcquireId) (acquire : Acquire κ)
      (called : s.acquires[a]? = some acquire) (phase : acquire.phase = .closing) :
      Effect options s (.lateDisposeSettled a) (s.setPhase a (.threw .poolClosed))
  /-- A breaker's new state is counted and announced where the pool listens. -/
  | breakerChanged (b : BreakerId) (state : BreakerState) (counts : BreakerCounts)
      (events : List (Emitted κ)) :
      Effect options s (.breakerChanged b state)
        { s with
          objects := s.objects.modify b fun breaker => { breaker with state }
          counters := { s.counters with breaker := counts }
          events }

variable {options : PoolOptions} {s s' : State κ τ}

/-- A turn of the reservation loop has one of its outcomes. -/
theorem acquireSlot_effect (s : State κ τ) (a : AcquireId) :
    SlotEffect options s a (s.acquireSlot options a) := by
  -- The splits follow the `if`s of the loop, from the bound to the queue.
  unfold acquireSlot
  split
  · exact .unbounded ‹_›
  · rename_i bounded
    have bounded : 0 < options.max := by omega
    split
    · exact .refused bounded ‹_›
    · rename_i opened
      have opened : s.closed = false := by simpa using opened
      split
      · exact .reserved bounded opened ‹_›
      · rename_i full
        have full : options.max ≤ s.entries.size + s.reserved := by omega
        -- The pool is full, so the walk for a victim decides.
        unfold takeLruIdle
        cases victim : s.idle.find? fun node => !s.nodePending node with
        | some node =>
          have spared := List.find?_some victim
          simp only [Bool.not_eq_eq_eq_not, Bool.not_true] at spared
          exact .evicted node bounded opened full (List.mem_of_find?_eq_some victim) spared victim
        | none =>
          have busy : ∀ node ∈ s.idle, s.nodePending node = true := by
            simpa using List.find?_eq_none.mp victim
          simp only [Option.map_none, waitForCapacity]
          -- The second look at `closed` in `waitForCapacity` finds what the first one did.
          rw [if_neg (by simp [opened])]
          split
          · exact .exhausted bounded opened full busy
          · exact .parked bounded opened full busy

/-- A lookup that skips disposed entries finds what the map binds. -/
theorem undisposed_eq_some {store : Store κ τ} {map : OrderedMap κ EntryId} {key : κ}
    {e : EntryId} {entry : Entry κ τ} (found : store.undisposed map key = some (e, entry)) :
    map.get? key = some e ∧ store.heap[e]? = some entry ∧ entry.disposed = false := by
  -- The lookup goes through the map, then the heap, then the flag.
  unfold Store.undisposed at found
  cases bound : map.get? key with
  | none => simp [bound] at found
  | some other =>
    cases present : store.heap[other]? with
    | none => simp [bound, present] at found
    | some record =>
      simp only [bound, present] at found
      split at found
      · simp at found
      · simp only [Option.some.injEq, Prod.mk.injEq] at found
        obtain ⟨rfl, rfl⟩ := found
        exact ⟨rfl, present, by simpa using ‹¬record.disposed = true›⟩

/-- `obtain` from the orphan lookup on has one of its outcomes. -/
theorem obtainMissing_effect (s : State κ τ) (a : AcquireId) (key : κ) :
    MissEffect options s a key (s.obtainMissing options a key) := by
  -- The orphans are looked up first, then the pool may turn out to be closed.
  unfold obtainMissing
  cases orphan : s.undisposed s.orphans key with
  | some pair =>
    obtain ⟨e, entry⟩ := pair
    exact .resurrected e (undisposed_eq_some orphan).1
  | none =>
    dsimp only
    split
    · exact .refused orphan ‹_›
    · rename_i opened
      exact .slot _ orphan (by simpa using opened) (acquireSlot_effect _ a)

/-- Dropping a reference has one of its outcomes. -/
theorem releaseEntry_effect (s : State κ τ) (e : EntryId) :
    ReleaseEffect s e (s.releaseEntry e) := by
  -- An entry that is disposed or unheld is left alone, and only its last reference frees one.
  unfold releaseEntry
  cases found : s.heap[e]? with
  | none => exact .ignored (by simp [found])
  | some entry =>
    dsimp only
    split
    · rename_i disposed
      exact .ignored fun record same => by
        cases found.symm.trans same
        exact .inl disposed
    · rename_i undisposed
      have undisposed : entry.disposed = false := by simpa using undisposed
      split
      · rename_i spent
        exact .ignored fun record same => by
          cases found.symm.trans same
          exact .inr spent
      · split
        · exact .dropped entry found undisposed (by omega)
        · have last : entry.refCount = 1 := by omega
          unfold releaseLast
          dsimp only
          split
          · rename_i doomed
            exact .retired entry found undisposed last doomed
          · rename_i kept
            simp only [not_or, Bool.not_eq_true] at kept
            exact .freed entry found undisposed last kept.1 kept.2

/-- A call of `acquire` takes the fast path or queues. -/
theorem acquire_effect (s : State κ τ) (key : κ) :
    Effect options s (.acquire key) (s.acquire key) := by
  -- The fast path needs a live entry that someone holds.
  unfold acquire
  cases fast : (s.undisposed s.entries key).filter fun fast => 0 < fast.2.refCount with
  | none =>
    simp only [fast]
    exact .queued key
  | some pair =>
    obtain ⟨e, entry⟩ := pair
    simp only [fast]
    obtain ⟨present, held⟩ := Option.filter_eq_some_iff.mp fast
    obtain ⟨bound, found, undisposed⟩ := undisposed_eq_some present
    exact .shared key e entry bound found undisposed (by simpa using held)

/-- `obtain` has one of its outcomes. -/
theorem obtain_effect {a : AcquireId} {acquire : Acquire κ} {after : Option AcquireId}
    (called : s.acquires[a]? = some acquire) (phase : acquire.phase = .queued after)
    (turn : s.turnOf after = true) :
    Effect options s (.obtain a) (s.obtain options a acquire.key) := by
  -- A live entry is validated only where it is idle and the option is set.
  unfold obtain
  cases live : s.undisposed s.entries acquire.key with
  | none => exact .missed a acquire after _ called phase turn live (obtainMissing_effect s a _)
  | some pair =>
    obtain ⟨e, entry⟩ := pair
    obtain ⟨bound, found, -⟩ := undisposed_eq_some live
    dsimp only
    split
    · rename_i idle
      exact .validating a acquire after e entry called phase turn bound found idle.1
    · exact .returned a acquire after e entry called phase turn bound found

/-- Releasing a key has one of its outcomes. -/
theorem release_effect (s : State κ τ) (key : κ) :
    Effect options s (.release key) (s.release key) := by
  -- The live map is asked first, and the orphans only where it has nothing.
  unfold release
  cases bound : (s.entries.get? key).or (s.orphans.get? key) with
  | none => exact .releasedNone key
  | some e =>
    refine .releasedKey key e _ ?_ (releaseEntry_effect s e)
    cases live : s.entries.get? key with
    | none => exact .inr (by simpa [live] using bound)
    | some other => exact .inl (by simpa [live] using bound)

/-- Opening the pool touches its flags only. -/
theorem start_effect (s : State κ τ) : Effect options s .start (s.start options) := by
  -- A second start only opens the pool.
  unfold State.start
  dsimp only
  split
  · exact .start s.started s.sweepTimer s.mutexTimer s.statsTimer
  · exact .start true _ _ _

/-- The collection touches the mutexes and the breakers only. -/
theorem gcKeyState_effect (s : State κ τ) :
    Effect options s .gcKeyState (s.gcKeyState options) := by
  -- Each turn of the pruning loop replaces the bank.
  have pruned (names : List κ) (s : State κ τ) : ∃ bank : BreakerBank κ,
      names.foldl (fun s key => s.dropBreaker options key) s =
        { s with toBreakerBank := bank } := by
    induction names generalizing s with
    | nil => exact ⟨s.toBreakerBank, rfl⟩
    | cons name rest ih =>
      obtain ⟨bank, same⟩ := ih (s.dropBreaker options name)
      exact ⟨bank, same⟩
  -- The mutexes are walked only where the option is set and a clock is at hand.
  unfold State.gcKeyState
  dsimp only
  split
  · obtain ⟨bank, same⟩ := pruned s.breakers.keys s
    rw [same]
    exact .gcKeyState s.toKeyState bank (.inl rfl)
  · rename_i age _
    split
    · obtain ⟨bank, same⟩ := pruned s.breakers.keys s
      rw [same]
      exact .gcKeyState s.toKeyState bank (.inl rfl)
    · obtain ⟨bank, same⟩ := pruned s.breakers.keys
        { s with toKeyState := s.toKeyState.gcMutexes (s.now - age) }
      rw [same]
      exact .gcKeyState _ bank (.inr ⟨_, rfl⟩)

/-- A breaker's change of state touches the bank, the counters and the events only. -/
theorem breakerChanged_effect (s : State κ τ) (b : BreakerId) (breaker : Breaker κ)
    (state : BreakerState) :
    Effect options s (.breakerChanged b state) (s.breakerChanged b breaker state) := by
  -- The pool counts and announces the change only of a breaker it listens to.
  unfold State.breakerChanged
  dsimp only
  split
  · cases state <;> exact .breakerChanged b _ _ _
  · exact .breakerChanged b state s.counters.breaker s.events

/-- Every step has one of the effects. -/
theorem step_effect {action : Action κ τ} (stepped : s.step options action = some s') :
    Effect options s action s' := by
  -- Each case turns the enabling condition of the step into the premises of its outcome.
  cases action with
  | acquire key => cases stepped; exact acquire_effect s key
  | releaseHandle h =>
    obtain ⟨handle, found, rfl⟩ := Option.map_eq_some_iff.mp stepped
    unfold releaseHandle
    split
    · exact .releasedAgain h handle found ‹_›
    · exact .released h handle _ found (by simpa using ‹¬handle.released = true›)
        (releaseEntry_effect _ _)
  | release key => cases stepped; exact release_effect s key
  | drain => cases stepped; exact .drain
  | stop => cases stepped; exact .stop
  | start => cases stepped; exact start_effect s
  | sweep =>
    obtain ⟨armed, same⟩ := Option.ite_none_right_eq_some.mp stepped
    cases same
    exact .sweep armed
  | gcKeyState =>
    obtain ⟨-, same⟩ := Option.ite_none_right_eq_some.mp stepped
    cases same
    exact gcKeyState_effect s
  | emitStats =>
    obtain ⟨-, same⟩ := Option.ite_none_right_eq_some.mp stepped
    cases same
    exact .emitStats
  | timeout w =>
    obtain ⟨waiter, found, due⟩ := Option.bind_eq_some_iff.mp stepped
    obtain ⟨fired, same⟩ := Option.ite_none_right_eq_some.mp due
    cases same
    refine .timeout w waiter found ?_
    cases timer : waiter.timer <;> simp_all
  | clock now => cases stepped; exact .clock now
  -- The pieces of `acquire` run in the phase that awaits them and in no other.
  | obtain a =>
    obtain ⟨acquire, called, due⟩ := Option.bind_eq_some_iff.mp stepped
    cases phase : acquire.phase <;> simp only [phase, reduceCtorEq] at due
    obtain ⟨turn, same⟩ := Option.ite_none_right_eq_some.mp due
    cases same
    exact obtain_effect called phase turn
  | discarded a =>
    obtain ⟨acquire, called, due⟩ := Option.bind_eq_some_iff.mp stepped
    cases phase : acquire.phase <;> simp only [phase, reduceCtorEq] at due
    obtain ⟨-, same⟩ := Option.ite_none_right_eq_some.mp due
    cases same
    exact .discarded a acquire _ _ called phase (obtainMissing_effect s a _)
  | resume a =>
    obtain ⟨acquire, called, due⟩ := Option.bind_eq_some_iff.mp stepped
    cases phase : acquire.phase <;> simp only [phase, reduceCtorEq] at due
    obtain ⟨waiter, found, due⟩ := Option.bind_eq_some_iff.mp due
    obtain ⟨-, same⟩ := Option.ite_none_left_eq_some.mp due
    cases promise : waiter.promise <;> simp only [promise, resume, Option.some.injEq] at same
    · simp_all
    · subst same
      exact .resumed a acquire _ waiter _ called phase found promise (acquireSlot_effect s a)
    · subst same
      exact .abandoned a acquire _ waiter _ called phase found promise
  | create a answer =>
    obtain ⟨acquire, called, due⟩ := Option.bind_eq_some_iff.mp stepped
    cases phase : acquire.phase <;> simp only [phase, reduceCtorEq] at due
    cases due
    unfold create
    cases resolved : s.toBreakerBank.resolveBreaker options.breaker acquire.key answer with
    | none => exact .breakerless a acquire answer called phase
    | some bank => exact .creating a acquire answer bank called phase resolved
  | deliver a =>
    obtain ⟨acquire, called, due⟩ := Option.bind_eq_some_iff.mp stepped
    cases phase : acquire.phase <;> simp only [phase, reduceCtorEq] at due <;> cases due
    · exact .delivered a acquire _ called phase
    · exact .failed a acquire _ called phase
  -- What `drain` waited for has settled by the time it goes on.
  | drained d =>
    obtain ⟨call, found, due⟩ := Option.bind_eq_some_iff.mp stepped
    obtain ⟨waited, same⟩ := Option.ite_none_right_eq_some.mp due
    cases same
    exact .drained d call found waited.2
  | validated a verdict =>
    obtain ⟨acquire, called, due⟩ := Option.bind_eq_some_iff.mp stepped
    cases phase : acquire.phase <;> simp only [phase, reduceCtorEq] at due
    cases due
    rcases verdict with _ | verdict
    · exact .unvalidated a acquire _ called phase
    · cases verdict
      · exact .refuted a acquire _ called phase
      · exact .passed a acquire _ called phase
  -- What the outside answers is taken from the action.
  | factoryCalled x =>
    obtain ⟨exec, found, same⟩ := Option.map_eq_some_iff.mp stepped
    cases same
    exact .factoryCalled x exec found
  | factorySettled c resource =>
    obtain ⟨call, found, due⟩ := Option.bind_eq_some_iff.mp stepped
    cases outcome : call.outcome <;> simp only [outcome, reduceCtorEq] at due
    cases due
    exact .factorySettled c resource call found outcome
  | execSettled x resource =>
    obtain ⟨exec, found, due⟩ := Option.bind_eq_some_iff.mp stepped
    cases outcome : exec.outcome <;> simp only [outcome, reduceCtorEq] at due
    cases due
    cases resource with
    | none => exact .execRejected x exec found outcome
    | some resource =>
      unfold created
      dsimp only
      split
      · exact .execLate x exec resource found outcome ‹_›
      · exact .inserted x exec resource found outcome (by simpa using ‹¬s.closed = true›)
  | disposeSettled e =>
    obtain ⟨entry, found, due⟩ := Option.bind_eq_some_iff.mp stepped
    obtain ⟨running, same⟩ := Option.ite_none_right_eq_some.mp due
    cases same
    exact .disposeSettled e entry found running.1 (by simpa using running.2)
  | lateDisposeSettled a =>
    obtain ⟨acquire, called, due⟩ := Option.bind_eq_some_iff.mp stepped
    cases phase : acquire.phase <;> simp only [phase, reduceCtorEq] at due
    cases due
    exact .lateDisposeSettled a acquire called phase
  | breakerChanged b state =>
    obtain ⟨breaker, found, same⟩ := Option.map_eq_some_iff.mp stepped
    cases same
    exact breakerChanged_effect s b breaker state

end RefPool.State
