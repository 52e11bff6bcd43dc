import RefPool.Model.Metrics
import RefPool.Proofs.Core

/-! Every count of a creation, disposal or eviction comes with its event, and no other does. -/

namespace RefPool

variable {κ τ : Type}

/-- The totals that are both counted and announced. -/
structure Announced where
  created : Nat
  disposed : Nat
  evicted : Nat
  breaker : BreakerCounts
  deriving DecidableEq

/-- The counters that have events. -/
def Counters.announced (counters : Counters) : Announced :=
  ⟨counters.created, counters.disposed, counters.evicted, counters.breaker⟩

/-- The breaker state an event announces. -/
def PoolEvent.breakerState : PoolEvent κ → Option BreakerState
  | .breakerOpen _ => some .open
  | .breakerClose _ => some .closed
  | .breakerHalfOpen _ => some .halfOpen
  | _ => none

/-- Count an event. -/
def Announced.hear (totals : Announced) : PoolEvent κ → Announced
  | .create _ => { totals with created := totals.created + 1 }
  | .dispose _ => { totals with disposed := totals.disposed + 1 }
  | .evict _ _ => { totals with evicted := totals.evicted + 1 }
  | .breakerOpen _ => { totals with breaker := totals.breaker.bump .open }
  | .breakerClose _ => { totals with breaker := totals.breaker.bump .closed }
  | .breakerHalfOpen _ => { totals with breaker := totals.breaker.bump .halfOpen }
  | _ => totals

namespace State

/-- What was emitted from one state to the next accounts for what was counted. -/
structure Tells (s next : State κ τ) (news : List (PoolEvent κ)) : Prop where
  emitted : ∃ log : List (Emitted κ), next.events = s.events ++ log ∧ log.map Emitted.event = news
  counted : next.counters.announced = news.foldl Announced.hear s.counters.announced

/-- What was emitted accounts for what was counted, and no breaker changed state. -/
def Quietly (s next : State κ τ) : Prop :=
  ∃ news, Tells s next news ∧ ∀ event ∈ news, event.breakerState = none

variable {s middle next : State κ τ}

/-- Emitting and counting nothing is quiet. -/
theorem Quietly.of_same (events : next.events = s.events)
    (counted : next.counters.announced = s.counters.announced) : Quietly s next :=
  -- Nothing is emitted, so there is nothing to count.
  ⟨[], ⟨⟨[], by simp [events], rfl⟩, counted⟩, by simp⟩

/-- What is told in two parts is told as a whole. -/
theorem Quietly.trans (first : Quietly s middle) (second : Quietly middle next) :
    Quietly s next := by
  -- The logs follow one another, and so do the counts.
  obtain ⟨news, ⟨⟨log, events, told⟩, counted⟩, silent⟩ := first
  obtain ⟨more, ⟨⟨log', events', told'⟩, counted'⟩, silent'⟩ := second
  refine ⟨news ++ more, ⟨⟨log ++ log', ?_, ?_⟩, ?_⟩, ?_⟩
  · rw [events', events, List.append_assoc]
  · rw [List.map_append, told, told']
  · rw [counted', counted, List.foldl_append]
  · intro event inside
    rcases List.mem_append.mp inside with before | after
    · exact silent event before
    · exact silent' event after

/-- One event that is counted, or need not be, is told. -/
theorem Quietly.of_event (event : PoolEvent κ) (silent : event.breakerState = none)
    (events : next.events = s.events ++ [⟨event, s.now⟩])
    (counted : next.counters.announced = s.counters.announced.hear event) : Quietly s next :=
  -- A single event is emitted, which no breaker has caused.
  ⟨[event], ⟨⟨_, events, rfl⟩, counted⟩, by simpa using silent⟩

/-- An event about an entry, if it is there, that counts nothing is told. -/
theorem Quietly.of_about (found : Option (Entry κ τ)) (event : Entry κ τ → PoolEvent κ)
    (silent : ∀ entry, (event entry).breakerState = none)
    (uncounted : ∀ entry (totals : Announced), totals.hear (event entry) = totals)
    (events : next.events = s.events ++ (found.map fun entry => ⟨event entry, s.now⟩).toList)
    (counted : next.counters.announced = s.counters.announced) : Quietly s next := by
  -- There is one event or none.
  cases found with
  | none => exact .of_same (by simpa using events) counted
  | some entry => exact .of_event (event entry) (silent entry) events (by rw [counted, uncounted])

variable [DecidableEq κ] {options : PoolOptions} {a : AcquireId} {key : κ} {e : EntryId}

/-- The eviction walks tell of the entries they evict. -/
theorem quietly_evict {entry : Entry κ τ} (found : s.heap[e]? = some entry)
    (reason : EvictReason) : Quietly s (s.evict e reason) := by
  have unlinked := Store.unlink_found s.toStore e found
  -- Unlinking and disposing emit nothing themselves.
  refine .of_event (.evict entry.key reason) rfl ?_ rfl
  show s.events ++ _ = _
  rw [unlinked]
  rfl

/-- A turn of the reservation loop tells of the entry it evicts. -/
theorem SlotEffect.quietly (wf : s.toStore.WellFormed) (effect : SlotEffect options s a next) :
    Quietly s next := by
  -- Only an eviction is announced.
  cases effect with
  | evicted victim _ _ _ listed =>
    obtain ⟨entry, found, -⟩ := wf.listed victim listed
    exact (quietly_evict found .lru).trans (.of_same rfl rfl)
  | unbounded | refused | reserved | exhausted | parked => exact .of_same rfl rfl

/-- `obtain` from the orphan lookup on tells of what it does. -/
theorem MissEffect.quietly (wf : s.toStore.WellFormed)
    (effect : MissEffect options s a key next) : Quietly s next := by
  -- A resurrection has its event.
  cases effect with
  | resurrected e => exact .of_event (.orphanResurrect key) rfl rfl rfl
  | refused => exact .of_same rfl rfl
  | slot _ _ _ effect =>
    -- The miss that is counted first has no event.
    have missed : Quietly s s.miss := .of_same rfl rfl
    exact missed.trans (effect.quietly wf)

/-- Dropping a reference tells of nothing that is counted. -/
theorem ReleaseEffect.quietly (effect : ReleaseEffect s e next) : Quietly s next := by
  -- The release is announced as the reference is dropped, and what follows is silent.
  have dropped : Quietly s (s.dropReference e) :=
    .of_about _ (fun entry => .release entry.key entry.refCount) (fun _ => rfl) (fun _ _ => rfl)
      rfl rfl
  cases effect with
  | ignored => exact .of_same rfl rfl
  | dropped => exact dropped
  | retired => exact dropped.trans (.of_same rfl rfl)
  | freed => exact dropped.trans (.of_same rfl rfl)

/-- A drain tells of the entries it condemns. -/
theorem quietly_drain (wf : s.toStore.WellFormed) : Quietly s s.drain := by
  -- The start is announced, and so is each condemnation of a held live entry.
  have walked := drain_rule (s := s)
    (P := fun next _ => Quietly s next) wf ?idle ?held ?orphan
    (.of_event .drainStart rfl rfl rfl)
  case idle =>
    intro next waits e entry _ told _ _ _
    exact told.trans (.of_same rfl rfl)
  case held =>
    intro next waits e entry _ told found _ _
    refine told.trans ?_
    -- The entry is still there when its eviction is announced.
    refine .of_event (.evict entry.key .drain) rfl ?_ rfl
    have condemned : (((next.toStore.deleteKey e).orphan entry.key e).heap)[e]? =
        some { entry with condemned := true } := by
      simp [Store.orphan, found]
    show next.events ++ _ = _
    rw [condemned]
    rfl
  case orphan =>
    intro next waits e entry _ told _ _ _
    exact told.trans (.of_same rfl rfl)
  obtain ⟨last, waits, -, told, -, same⟩ := walked
  rw [same]
  exact told.trans (.of_same rfl rfl)

/-- A sweep tells of the entries it evicts. -/
theorem quietly_sweep (wf : s.toStore.WellFormed) : Quietly s (s.sweep options) := by
  -- Each eviction is announced, and their number at the end.
  refine (sweep_rule options (P := fun next => Quietly s next) wf ?_ ?_ (.of_same rfl rfl)).2
  · intro next node entry _ told found _ _
    exact (told.trans (quietly_evict found .ttl)).trans (.of_same rfl rfl)
  · intro next swept told
    exact told.trans (.of_event (.idleSweep swept) rfl rfl rfl)

/-- Every step but a breaker's change of state tells of all that it counts. -/
theorem Effect.quietly {action : Action κ τ} (wf : s.toStore.WellFormed)
    (effect : Effect options s action next)
    (steady : ∀ b state, action ≠ .breakerChanged b state) : Quietly s next := by
  -- Each kind of step has its own event, if any.
  cases effect with
  | shared key e =>
    exact .of_about _ (fun entry => .acquire entry.key entry.refCount) (fun _ => rfl)
      (fun _ _ => rfl) rfl rfl
  | released h handle next _ _ effect =>
    have spent : Quietly s { s with
        handles := s.handles.modify h fun handle => { handle with released := true } } :=
      .of_same rfl rfl
    exact spent.trans effect.quietly
  | releasedKey key e next _ effect => exact effect.quietly
  | drain => exact quietly_drain wf
  | stop =>
    have closing : Quietly s s.setClosed.stopTimers := .of_same rfl rfl
    exact closing.trans (quietly_drain wf)
  | sweep => exact quietly_sweep wf
  | emitStats => exact .of_event (.stats s.getStats) rfl rfl rfl
  | missed a acquire after next _ _ _ _ effect => exact effect.quietly wf
  | discarded a acquire live next _ _ effect => exact effect.quietly wf
  | resumed a acquire w waiter next _ _ _ _ effect => exact effect.quietly wf
  | delivered a acquire e =>
    exact .of_about _ (fun entry => .acquire entry.key entry.refCount) (fun _ => rfl)
      (fun _ _ => rfl) rfl rfl
  -- These events are counted one for one.
  | drained => exact .of_event .drainComplete rfl rfl rfl
  | inserted x exec => exact .of_event (.create exec.key) rfl rfl rfl
  | disposeSettled e entry => exact .of_event (.dispose entry.key) rfl rfl rfl
  | breakerChanged b state => exact absurd rfl (steady b state)
  | queued | releasedAgain | releasedNone | start | gcKeyState | timeout | clock | validating
  | returned | abandoned | breakerless | creating | failed | unvalidated | passed | refuted
  | factoryCalled | factorySettled | execRejected | execLate | lateDisposeSettled =>
    exact .of_same rfl rfl

end State

end RefPool
