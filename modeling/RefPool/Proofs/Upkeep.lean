import RefPool.Proofs.Bank
import RefPool.Proofs.IdleList
import RefPool.Proofs.Standing
import RefPool.Proofs.Wakeup

/-! The per-key state of a pool at rest is that of its live keys and of its tripped breakers. -/

namespace RefPool

variable {κ τ : Type} [DecidableEq κ]

namespace BreakerBank

variable {bank : BreakerBank κ} {alive later : κ → Prop} {key : κ}

/-- Whether the breaker kept for a key is closed. -/
def keepsClosed (bank : BreakerBank κ) (key : κ) : Bool :=
  (bank.breakers.get? key).any fun b =>
    (bank.objects[b]?).any fun breaker => breaker.state = .closed

/-- Whether a breaker kept for a key is open or half-open. -/
def keepsTripped (bank : BreakerBank κ) (key : κ) : Bool :=
  (bank.breakers.get? key).any fun b =>
    (bank.objects[b]?).any fun breaker => breaker.state ≠ .closed

/-- Every breaker kept closed is kept for a key that is alive. -/
structure Attended (bank : BreakerBank κ) (alive : κ → Prop) : Prop where
  known : ∀ key b, bank.breakers.get? key = some b → ∃ breaker, bank.objects[b]? = some breaker
  closed : ∀ key, bank.keepsClosed key = true → alive key
  /-- The pool listens to no breaker but the one it keeps. -/
  heard : ∀ key, bank.breakerUnsubs.has key = true → bank.breakers.has key = true

namespace Attended

/-- Without breakers there is nothing to attend to. -/
theorem empty : (BreakerBank.empty .factory).Attended alive := by
  -- No key has a breaker.
  constructor <;> simp [BreakerBank.empty, keepsClosed, OrderedMap.has]

/-- What keeps the keys of closed breakers alive keeps them attended. -/
theorem mono (attended : bank.Attended alive)
    (lasts : ∀ key, bank.keepsClosed key = true → alive key → later key) :
    bank.Attended later where
  -- Only the closed breakers ask whether their keys are alive.
  known := attended.known
  closed := fun key closed => lasts key closed (attended.closed key closed)
  heard := attended.heard

/-- The breaker of a key that is alive may be made. -/
theorem resolve (attended : bank.Attended alive) {answer : BreakerMade} {made : BreakerBank κ}
    (resolved : bank.resolveBreaker .factory key answer = some made) (present : alive key) :
    made.Attended alive := by
  -- A breaker kept for the key is used again, and otherwise one is made.
  unfold resolveBreaker at resolved
  cases kept : bank.breakers.get? key with
  | some b =>
    simp only [kept] at resolved
    cases resolved
    exact attended
  | none =>
    cases answer with
    | threw => simp [kept] at resolved
    | made observable state =>
      simp only [kept, Option.some.injEq] at resolved
      subst resolved
      have old {other : κ} {b : BreakerId} (differ : other ≠ key)
          (bound : (bank.breakers.set key bank.objects.length).get? other = some b) :
          ∃ breaker, bank.breakers.get? other = some b ∧ bank.objects[b]? = some breaker ∧
            (bank.objects ++ [⟨state, some key, observable⟩])[b]? = some breaker := by
        rw [OrderedMap.get?_set_ne _ _ differ] at bound
        obtain ⟨breaker, found⟩ := attended.known other b bound
        exact ⟨breaker, bound, found, Arena.getElem?_push_of_some _ found⟩
      -- The one made is the last of the breakers, and all others read as before.
      constructor
      · intro other b bound
        by_cases same : other = key
        · subst same
          rw [OrderedMap.get?_set_self, Option.some.injEq] at bound
          subst bound
          exact ⟨_, List.getElem?_concat_length⟩
        · obtain ⟨breaker, -, -, found⟩ := old same bound
          exact ⟨breaker, found⟩
      · intro other closed
        by_cases same : other = key
        · exact same ▸ present
        · refine attended.closed other ?_
          obtain ⟨b, bound, closed⟩ := Option.any_eq_true _ _ |>.mp closed
          obtain ⟨breaker, before, found, after⟩ := old same bound
          rw [after] at closed
          simpa [keepsClosed, before, found] using closed
      · intro other heard
        by_cases same : other = key
        · simp [OrderedMap.has, same]
        · have before : bank.breakerUnsubs.has other = true := by
            cases observable
            · exact heard
            · simpa [OrderedMap.has, OrderedMap.get?_set_ne _ _ same] using heard
          have kept := attended.heard other before
          simpa [OrderedMap.has, OrderedMap.get?_set_ne _ _ same] using kept

/-- Unsubscribing from a breaker does not change its state. -/
theorem forget {objects : List (Breaker κ)} (attended : bank.Attended alive) (key : κ)
    (states : objects.map Breaker.state = bank.objects.map Breaker.state)
    (others : ∀ other, other ≠ key → alive other → later other) :
    (⟨objects, bank.breakers.delete key, bank.breakerUnsubs.delete key⟩ :
      BreakerBank κ).Attended later := by
  -- The breakers of the other keys are in the state they were in.
  have same (b : BreakerId) : (objects[b]?).map Breaker.state =
      (bank.objects[b]?).map Breaker.state := by
    rw [← List.getElem?_map, states, List.getElem?_map]
  constructor
  · intro other b bound
    obtain ⟨-, before⟩ := OrderedMap.get?_of_delete bound
    obtain ⟨breaker, found⟩ := attended.known other b before
    have present := same b
    rw [found, Option.map_some] at present
    obtain ⟨after, read, -⟩ := Option.map_eq_some_iff.mp present
    exact ⟨after, read⟩
  · intro other closed
    obtain ⟨b, bound, closed⟩ := Option.any_eq_true _ _ |>.mp closed
    obtain ⟨differ, before⟩ := OrderedMap.get?_of_delete bound
    refine others other differ (attended.closed other ?_)
    have kept := congrArg (Option.any fun state => decide (state = .closed)) (same b)
    rw [Option.any_map, Option.any_map] at kept
    simp only [keepsClosed, before, Option.any_some]
    exact kept.symm.trans closed
  · intro other heard
    obtain ⟨b, bound⟩ := OrderedMap.has_eq_true.mp heard
    obtain ⟨differ, before⟩ := OrderedMap.get?_of_delete bound
    have kept := attended.heard other (OrderedMap.has_eq_true.mpr ⟨b, before⟩)
    simpa [OrderedMap.has, OrderedMap.get?_delete_ne _ differ] using kept

/-- Dropping the breaker of a key attends to it, unless the key is present. -/
theorem drop (attended : bank.Attended alive) (key : κ) (present : Bool)
    (others : ∀ other, other ≠ key → alive other → later other)
    (own : present = true → alive key → later key) :
    (bank.dropBreaker .factory key present).Attended later := by
  unfold dropBreaker
  -- Where the breaker stays, it is not closed, or the key is present.
  have stays (kept : bank.keepsClosed key = true → present = true) : bank.Attended later := by
    refine attended.mono fun other closed living => ?_
    by_cases same : other = key
    · subst same
      exact own (kept closed) living
    · exact others other same living
  cases kept : bank.breakers.get? key with
  | none => exact stays fun closed => by simp [keepsClosed, kept] at closed
  | some b =>
    obtain ⟨breaker, found⟩ := attended.known key b kept
    simp only [found]
    split
    · rename_i tripped
      exact stays fun closed => absurd (by simpa [keepsClosed, kept, found] using closed) tripped
    · split
      · exact stays fun _ => ‹_›
      · refine attended.forget key ?_ others
        split
        · rfl
        · exact Arena.map_modify_of_eq Breaker.state fun _ _ => rfl

/-- A breaker may change state where the keys it closes for are alive. -/
theorem change (attended : bank.Attended alive) (b : BreakerId) (state : BreakerState)
    (closing : state = .closed → ∀ key, bank.breakers.get? key = some b → alive key) :
    ({ bank with
      objects := bank.objects.modify b fun breaker => { breaker with state } } :
        BreakerBank κ).Attended alive where
  known := by
    intro key other bound
    obtain ⟨breaker, found⟩ := attended.known key other bound
    exact ⟨_, by rw [List.getElem?_modify, found]; rfl⟩
  -- The breaker that changed may be kept for a key, which then is alive.
  closed := by
    intro key closed
    obtain ⟨other, bound, closed⟩ := Option.any_eq_true _ _ |>.mp closed
    by_cases same : b = other
    · subst same
      obtain ⟨breaker, found⟩ := attended.known key b bound
      rw [Arena.getElem?_modify_self _ found, Option.any_some, decide_eq_true_eq] at closed
      exact closing closed key bound
    · refine attended.closed key ?_
      rw [Arena.getElem?_modify_other _ _ same] at closed
      simpa [keepsClosed, bound] using closed
  heard := attended.heard

/-- The collection attends to the breakers it drops. -/
theorem collect (attended : bank.Attended alive) (present : κ → Bool) (names : List κ) :
    (names.foldl (fun bank key => bank.dropBreaker .factory key (present key)) bank).Attended
      alive := by
  -- One name after the other.
  induction names generalizing bank with
  | nil => exact attended
  | cons name rest ih => exact ih (attended.drop name _ (fun _ _ => id) fun _ => id)

end Attended

end BreakerBank

namespace State

variable {options : PoolOptions} {s next : State κ τ} {key : κ}

/-- Whether an entry of a key has still to be disposed of. -/
def lingers (s : State κ τ) (key : κ) : Bool :=
  s.heap.any fun entry => entry.key = key ∧ entry.disposed = false

/-- An acquire of the key is in flight, or an entry of it has still to be disposed of. -/
def Alive (s : State κ τ) (key : κ) : Prop :=
  s.toKeyState.isPending key = true ∨ s.lingers key = true

/-- No acquire and no disposal is in flight. -/
def Resting (s : State κ τ) : Prop :=
  (∀ acquire ∈ s.acquires, acquire.phase.stage = .settled) ∧
    ∀ entry ∈ s.heap, entry.disposing = true → entry.disposed = true

/-- What the pool keeps by key is kept for keys with an entry, or with a tripped breaker. -/
structure Tidy (s : State κ τ) : Prop where
  pending : s.pending.items = []
  mutexes : s.mutexes.items = []
  breakers : ∀ key ∈ s.breakers.keys ++ s.breakerUnsubs.keys,
    s.entries.has key = true ∨ s.orphans.has key = true ∨
      s.toBreakerBank.keepsTripped key = true

/-- The pool is tidy whenever it is at rest. -/
def TidyAtRest (s : State κ τ) : Prop := s.Resting → s.Tidy

/--
Nobody leaves a closed breaker behind.

The last acquire in flight for a key ends with an entry of the key still to be disposed of, or
with no closed breaker kept for the key, and a kept breaker closes only for a key that is alive.
-/
def CleansUp (s : State κ τ) : Action κ τ → Prop
  | .deliver a => ∀ acquire ∈ s.acquires[a]?, s.toKeyState.pendingOf acquire.key ≤ 1 →
      s.toBreakerBank.keepsClosed acquire.key = true → s.lingers acquire.key = true
  | .breakerChanged b state => state = .closed → ∀ key ∈ s.breakers.keys,
      s.breakers.get? key = some b → s.Alive key
  | _ => True

/-- Whether an acquire is in flight for a key, or an entry lingers, can be checked. -/
instance (s : State κ τ) (key : κ) : Decidable (s.Alive key) := by
  unfold Alive
  infer_instance

/-- Whether a pool is at rest can be checked. -/
instance (s : State κ τ) : Decidable s.Resting := by
  unfold Resting
  infer_instance

/-- Whether a pool at rest is tidy can be checked. -/
instance (s : State κ τ) : Decidable s.TidyAtRest :=
  decidable_of_iff
    (s.Resting → s.pending.items = [] ∧ s.mutexes.items = [] ∧
      ∀ key ∈ s.breakers.keys ++ s.breakerUnsubs.keys,
        s.entries.has key = true ∨ s.orphans.has key = true ∨
          s.toBreakerBank.keepsTripped key = true)
    ⟨fun tidy rest => ⟨(tidy rest).1, (tidy rest).2.1, (tidy rest).2.2⟩,
      fun tidy rest => ⟨(tidy rest).pending, (tidy rest).mutexes, (tidy rest).breakers⟩⟩

/-- Whether a step leaves no closed breaker behind can be checked. -/
instance (s : State κ τ) (action : Action κ τ) : Decidable (s.CleansUp action) := by
  induction action using Action.casesOn <;> unfold CleansUp <;> infer_instance

/-- Whether an entry lingers can be told from the standing of the entries. -/
theorem lingers_eq (s : State κ τ) (key : κ) : s.lingers key =
    (s.heap.map Entry.standing).any fun standing => standing.1.2 = key ∧ standing.2 = false := by
  -- The key and the end of the disposal are parts of the standing.
  rw [List.any_map]
  rfl

/-- Only the end of an acquire takes a mark off its key. -/
theorem Effect.pending {action : Action κ τ} (core : Core s)
    (effect : Effect options s action next) (unended : ∀ a, action ≠ .deliver a)
    (pending : s.toKeyState.isPending key = true) : next.toKeyState.isPending key = true := by
  -- New calls set marks, and only the end of a call takes one off.
  have same (kept : next.toKeyState = s.toKeyState) : next.toKeyState.isPending key = true := by
    rw [kept]
    exact pending
  cases effect with
  | shared name e =>
    -- The mark that the call sets is taken off at once.
    show ((s.toKeyState.incPending name).decPending name).isPending key = true
    rwa [KeyState.isPending, KeyState.pendingOf_passing]
  | queued name => exact KeyState.isPending_enqueue s.acquires.length s.now pending
  | released h handle next found holding effect => exact same effect.sameCalls.keys
  | releasedKey key e next bound effect => exact same effect.sameCalls.keys
  | drain => exact same (sameCalls_drain core.store).keys
  | stop => exact same (sameCalls_drain (s := s.setClosed.stopTimers) core.store).keys
  | sweep => exact same (sameCalls_sweep core.store).keys
  | gcKeyState keys bank collected =>
    rcases collected with rfl | ⟨cutoff, rfl⟩
    · exact pending
    · show decide (0 < (((s.toKeyState.gcMutexes cutoff).pending).get? key).getD 0) = true
      rw [gcMutexes_pending]
      exact pending
  | missed a acquire after next called phase turn absent effect => exact same effect.acts.keys
  | discarded a acquire live next called phase effect => exact same effect.acts.keys
  | resumed a acquire w waiter next called phase found woken effect => exact same effect.acts.keys
  | delivered a | failed a => exact absurd rfl (unended a)
  | releasedAgain | releasedNone | start | emitStats | timeout | clock | validating | returned
  | abandoned | breakerless | creating | drained | unvalidated | passed | refuted | factoryCalled
  | factorySettled | execRejected | execLate | inserted | disposeSettled | lateDisposeSettled
  | breakerChanged => exact same rfl

/-- An entry lingers until its disposal ends. -/
theorem StandingEffect.lingers {action : Action κ τ} (effect : StandingEffect s next action)
    (unended : ∀ e entry, action = .disposeSettled e → s.heap[e]? = some entry → entry.key ≠ key)
    (lingering : s.lingers key = true) : next.lingers key = true := by
  -- The entry that lingers is another than the one whose disposal ends.
  cases effect with
  | same _ _ _ heap =>
    rw [lingers_eq] at lingering ⊢
    rw [heap]
    exact lingering
  | inserted x exec resource _ _ _ heap =>
    rw [lingers_eq] at lingering ⊢
    rw [heap, List.any_append, lingering, Bool.true_or]
  | ended e entry found _ _ heap =>
    have differ := unended e entry rfl found
    unfold State.lingers at lingering ⊢
    rw [List.any_eq_true] at lingering ⊢
    obtain ⟨record, inside, alike⟩ := lingering
    obtain ⟨i, read⟩ := List.mem_iff_getElem?.mp inside
    simp only [decide_eq_true_eq] at alike
    have apart : e ≠ i := by
      rintro rfl
      cases found.symm.trans read
      exact differ alike.1
    refine ⟨record, List.mem_of_getElem? (i := i) ?_, by simp [alike]⟩
    rw [heap, Arena.getElem?_modify_other _ _ apart]
    exact read

/-- The breakers of a new pool are attended. -/
theorem attended_init (perKey : options.breaker = .factory) :
    (init options : State κ τ).toBreakerBank.Attended (init options : State κ τ).Alive := by
  -- Without a shared breaker the bank starts empty.
  show (BreakerBank.empty options.breaker).Attended _
  rw [perKey]
  exact .empty

/-- The end of an acquire leaves the breakers attended, if it cleans up. -/
theorem attended_deliver {a : AcquireId} {acquire : Acquire κ}
    {outcome : Except PoolError EntryId} (called : s.acquires[a]? = some acquire)
    (bank : (s.deliver a acquire outcome).toBreakerBank = s.toBreakerBank)
    (lasts : ∀ key, s.lingers key = true → (s.deliver a acquire outcome).lingers key = true)
    (clean : s.CleansUp (.deliver a)) (attended : s.toBreakerBank.Attended s.Alive) :
    (s.deliver a acquire outcome).toBreakerBank.Attended (s.deliver a acquire outcome).Alive := by
  -- Another mark of the key is left, or an entry of it that lingers.
  rw [bank]
  refine attended.mono fun key closed alive => ?_
  have marked := pendingOf_deliver s a acquire outcome key
  rcases alive with pending | lingering
  · by_cases same : key = acquire.key
    · subst same
      by_cases last : s.toKeyState.pendingOf acquire.key ≤ 1
      · exact .inr (lasts _ (clean acquire called last closed))
      · refine .inl ?_
        rw [if_pos rfl] at marked
        simp only [KeyState.isPending, marked, decide_eq_true_eq]
        omega
    · rw [if_neg same] at marked
      exact .inl (by simpa only [KeyState.isPending, marked] using pending)
  · exact .inr (lasts key lingering)

/-- The end of a disposal attends to the breaker of the key. -/
theorem attended_finishDispose (perKey : options.breaker = .factory) (core : Core s)
    {e : EntryId} {entry : Entry κ τ} (found : s.heap[e]? = some entry)
    (started : entry.disposing = true)
    (standing : StandingEffect s (s.finishDispose options e entry) (.disposeSettled e))
    (attended : s.toBreakerBank.Attended s.Alive) :
    (s.finishDispose options e entry).toBreakerBank.Attended
      (s.finishDispose options e entry).Alive := by
  have dropped : (s.finishDispose options e entry).toBreakerBank =
      s.toBreakerBank.dropBreaker .factory entry.key (s.present entry.key) := by
    rw [← perKey]
    rfl
  rw [dropped]
  -- An entry that a map binds is not the one whose disposal has ended.
  have bound {other : EntryId} {record : Entry κ τ} (present : s.heap[other]? = some record)
      (key : record.key = entry.key) (fresh : record.disposing = false) :
      (s.finishDispose options e entry).lingers entry.key = true := by
    have apart : e ≠ other := by
      rintro rfl
      cases found.symm.trans present
      simp [started] at fresh
    refine List.any_eq_true.mpr ⟨record, List.mem_of_getElem? (i := other) ?_, ?_⟩
    · rw [finishDispose_heap, Arena.getElem?_modify_other _ _ apart]
      exact present
    · simp [key, (core.store.sound other record present).undisposed fresh]
  refine attended.drop entry.key _ (fun other differ alive => ?_) fun present alive => ?_
  · refine alive.imp id fun lingering => standing.lingers ?_ lingering
    rintro _ record ended read
    cases ended
    cases found.symm.trans read
    exact differ.symm
  · simp only [State.present, Bool.or_eq_true] at present
    rcases present with (live | orphaned) | pending
    · obtain ⟨other, live⟩ := OrderedMap.has_eq_true.mp live
      obtain ⟨record, read, promised⟩ := core.store.live _ _ live
      exact .inr (bound read promised.key promised.undisposed)
    · obtain ⟨other, orphaned⟩ := OrderedMap.has_eq_true.mp orphaned
      obtain ⟨record, read, promised⟩ := core.store.orphaned _ _ orphaned
      exact .inr (bound read promised.key promised.undisposed)
    · exact .inl pending

/-- A step that leaves no closed breaker behind leaves the breakers attended. -/
theorem attended_step {action : Action κ τ} (perKey : options.breaker = .factory) (core : Core s)
    (stepped : s.step options action = some next) (clean : s.CleansUp action)
    (attended : s.toBreakerBank.Attended s.Alive) : next.toBreakerBank.Attended next.Alive := by
  -- Where the keys stay alive the breakers stay attended; the other steps are taken one by one.
  have effect := step_effect stepped
  have standing := effect.standing core.store
  have bank := bank_of_step core.store stepped
  have alive (unended : ∀ a, action ≠ .deliver a) (undisposed : ∀ e, action ≠ .disposeSettled e)
      (key : κ) (alive : s.Alive key) : next.Alive key :=
    alive.imp (effect.pending core unended)
      (standing.lingers fun e _ ended => absurd ended (undisposed e))
  cases action with
  | deliver a =>
    have same : next.toBreakerBank = s.toBreakerBank := by
      generalize next.toBreakerBank = after at bank
      cases bank
      rfl
    have lasts (key : κ) : s.lingers key = true → next.lingers key = true :=
      standing.lingers nofun
    cases effect with
    | delivered _ acquire e called => exact attended_deliver called same lasts clean attended
    | failed _ acquire error called => exact attended_deliver called same lasts clean attended
  | disposeSettled e =>
    cases effect with
    | disposeSettled _ entry found started =>
      exact attended_finishDispose perKey core found started standing attended
  -- A breaker is made for a key whose call is in flight.
  | create a answer =>
    generalize next.toBreakerBank = after at bank
    cases bank with
    | same => exact attended.mono fun key _ => alive nofun nofun key
    | resolved _ acquire _ _ called phase made =>
      rw [perKey] at made
      have pending := pending_of_called core called (by rw [phase]; nofun)
      exact (attended.resolve made (.inl pending)).mono fun key _ => alive nofun nofun key
  -- The collection looks at the keys one by one.
  | gcKeyState =>
    generalize next.toBreakerBank = after at bank
    cases bank with
    | same => exact attended.mono fun key _ => alive nofun nofun key
    | collected =>
      rw [perKey]
      exact (attended.collect s.present _).mono fun key _ => alive nofun nofun key
  -- A breaker that closes belongs to a key that is alive.
  | breakerChanged b state =>
    generalize next.toBreakerBank = after at bank
    cases bank with
    | same => exact attended.mono fun key _ => alive nofun nofun key
    | changed _ _ breaker found =>
      refine (attended.change b state fun closing key bound => ?_).mono
        fun key _ => alive nofun nofun key
      exact clean closing key (List.mem_map.mpr
        ⟨(key, b), OrderedMap.get?_eq_some_iff.mp bound, rfl⟩) bound
  | _ =>
    generalize next.toBreakerBank = after at bank
    cases bank
    exact attended.mono fun key _ => alive nofun nofun key

/-- An exact store with attended breakers is tidy at rest. -/
theorem tidyAtRest_of_attended (core : Core s) (accurate : s.toStore.Exact)
    (attended : s.toBreakerBank.Attended s.Alive) : s.TidyAtRest := by
  -- No call is open, so no mark and no mutex is left.
  rintro ⟨settled, ended⟩
  obtain ⟨pending, mutexes⟩ := core.chained.drained fun t slot read => by
    rw [List.getElem?_map, Option.map_eq_some_iff] at read
    obtain ⟨acquire, called, rfl⟩ := read
    simp [Slot.isOpen, Acquire.slot, settled acquire (List.mem_of_getElem? called)]
  refine ⟨pending, mutexes, fun key listed => ?_⟩
  have kept : s.breakers.has key = true := by
    have mem {map : OrderedMap κ BreakerId} (inside : key ∈ map.keys) : map.has key = true := by
      obtain ⟨item, member, rfl⟩ := List.mem_map.mp inside
      exact OrderedMap.has_eq_true.mpr ⟨item.2, OrderedMap.get?_eq_some_iff.mpr member⟩
    rcases List.mem_append.mp listed with inside | inside
    · exact mem inside
    · exact attended.heard key (mem inside)
  obtain ⟨b, bound⟩ := OrderedMap.has_eq_true.mp kept
  obtain ⟨breaker, found⟩ := attended.known key b bound
  by_cases closed : breaker.state = .closed
  · -- The key of a closed breaker has an entry left, which is not on its way out.
    have alive := attended.closed key (by simp [BreakerBank.keepsClosed, bound, found, closed])
    rcases alive with marked | lingering
    · have unmarked := OrderedMap.items_eq_nil_iff.mp pending key
      simp [KeyState.isPending, KeyState.pendingOf, unmarked] at marked
    · obtain ⟨entry, inside, alike⟩ := List.any_eq_true.mp lingering
      simp only [decide_eq_true_eq] at alike
      obtain ⟨e, read⟩ := List.mem_iff_getElem?.mp inside
      have fresh : entry.disposing = false := Bool.eq_false_iff.mpr fun started => by
        simp [ended entry inside started] at alike
      rcases (accurate.each e entry read).kept fresh with live | orphaned
      · exact .inl (OrderedMap.has_eq_true.mpr ⟨e, alike.1 ▸ live⟩)
      · exact .inr (.inl (OrderedMap.has_eq_true.mpr ⟨e, alike.1 ▸ orphaned⟩))
  · exact .inr (.inr (by simp [BreakerBank.keepsTripped, bound, found, closed]))

/--
The per-key state is bounded by the live keys in every run that leaves no closed breaker behind.

Nothing depends on the collection of the key state, so it need not be armed.
-/
theorem tidyAtRest_throughout (options : PoolOptions) (perKey : options.breaker = .factory)
    (actions : List (Action κ τ))
    (clean : Runs.Guarded (step options) (fun s action => s.NoRevival action ∧ s.CleansUp action)
      (init options) actions) :
    Runs.Throughout (step options) TidyAtRest (init options) actions := by
  -- The store stays exact where no release revives an entry.
  have kept := clean.throughout
    (fun s => Core s ∧ s.toStore.Exact ∧ s.toBreakerBank.Attended s.Alive)
    (fun s action next ⟨core, accurate, attended⟩ met stepped =>
      ⟨core_step core stepped, (step_effect stepped).exact core met.1 accurate,
        attended_step perKey core stepped met.2 attended⟩)
    ⟨core_init options, Store.exact_empty, attended_init perKey⟩
  exact kept.mono fun s ⟨core, accurate, attended⟩ =>
    tidyAtRest_of_attended core accurate attended

/-- One key evicts another, and a third fails with its breaker open. -/
theorem tidyAtRest_throughout_churned :
    let options : PoolOptions := { max := 1, breaker := .factory }
    let create (a key : Nat) : List (Action Nat Nat) :=
      [.acquire key, .obtain a, .create a (.made true), .factoryCalled a]
    let succeed (a : Nat) : List (Action Nat Nat) :=
      [.factorySettled a (some a), .execSettled a (some a), .deliver a, .releaseHandle a]
    Runs.Throughout (step options) TidyAtRest (init options)
      (create 0 7 ++ succeed 0 ++ create 1 8 ++ [.disposeSettled 0] ++ succeed 1 ++ create 2 9 ++
        [.disposeSettled 1, .factorySettled 2 none, .breakerChanged 2 .open, .execSettled 2 none,
          .deliver 2]) :=
  -- The breaker of 9 is open, and the others are dropped with their entries.
  tidyAtRest_throughout _ rfl _ (by decide +kernel)

/-- A first creation fails, and the closed breaker of its key is kept for good. -/
theorem tidyAtRest_failed :
    let options : PoolOptions := { max := 1, breaker := .factory }
    ¬ Runs.Throughout (step options) TidyAtRest (init options)
      ([.acquire 7, .obtain 0, .create 0 (.made true), .factoryCalled 0, .factorySettled 0 none,
        .execSettled 0 none, .deliver 0] : List (Action Nat Nat)) := by
  -- The breaker is still closed when its key has neither entry nor call.
  decide +kernel

end State

end RefPool
