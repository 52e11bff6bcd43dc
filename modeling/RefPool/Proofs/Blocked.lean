import RefPool.Proofs.Backlog
import Mathlib.Data.List.Count
import Mathlib.Data.List.Perm.Basic
import Mathlib.Data.List.Perm.Subperm

/-! When the cap on the waiters covers every acquire that is blocked on capacity. -/

namespace RefPool

/-- Whether a call waits for its turn on the mutex of its key. -/
def Phase.isQueued : Phase → Bool
  | .queued _ => true
  | _ => false

namespace State

variable {κ τ : Type} [DecidableEq κ] {options : PoolOptions} {s next : State κ τ}

/-- Whether a call is parked on a waiter that has not been settled. -/
def isParked (s : State κ τ) (acquire : Acquire κ) : Bool :=
  acquire.phase.waiter.any fun w => (s.waiters[w]?).any fun waiter => waiter.promise = .pending

/-- Whether a call is blocked on capacity: parked, or queued behind a parked call of its key. -/
def isBlocked (s : State κ τ) (acquire : Acquire κ) : Bool :=
  s.isParked acquire || (acquire.phase.isQueued &&
    s.acquires.any fun other => decide (other.key = acquire.key) && s.isParked other)

/-- The number of calls blocked on capacity. -/
def blocked (s : State κ τ) : Nat := s.acquires.countP s.isBlocked

/-- The snapshot counts the blocked calls, and the option caps them. -/
structure Capped (options : PoolOptions) (s : State κ τ) : Prop where
  counted : s.getStats.waiters = s.blocked
  capped : ∀ limit ∈ options.maxWaiters, 0 ≤ limit → s.blocked ≤ limit

/-- Whether the blocked calls are capped can be checked. -/
instance (s : State κ τ) : Decidable (s.Capped options) :=
  decidable_of_iff (s.getStats.waiters = s.blocked ∧
      ∀ limit ∈ options.maxWaiters, 0 ≤ limit → s.blocked ≤ limit)
    ⟨fun ⟨counted, capped⟩ => ⟨counted, capped⟩, fun ⟨counted, capped⟩ => ⟨counted, capped⟩⟩

/--
Nobody gets queued behind a parked call of its key.

No call arrives for the key of a parked one, and none parks while another of its key is queued.
-/
def Unfollowed (options : PoolOptions) (s : State κ τ) : Action κ τ → Prop
  | .acquire key => ∀ other ∈ s.acquires, other.key = key → s.isParked other = false
  | action => s.Parks options action → ∀ a ∈ caller action, ∀ acquire ∈ s.acquires[a]?,
      ∀ (b : Nat) other, s.acquires[b]? = some other → b ≠ a → other.key = acquire.key →
        other.phase.isQueued = false

/-- Whether somebody gets queued behind a parked call can be checked. -/
instance (s : State κ τ) (action : Action κ τ) : Decidable (Unfollowed options s action) := by
  induction action using Action.casesOn <;> unfold Unfollowed <;> infer_instance

/-- What every run keeps of the line. -/
structure Lined (options : PoolOptions) (s : State κ τ) : Prop where
  core : Core s
  waiting : Waiting s.toGate s.acquires s.closed
  /-- No two calls are parked on one waiter. -/
  apart : ∀ (a b : Nat) acquire other w, s.acquires[a]? = some acquire →
    s.acquires[b]? = some other → acquire.phase.waiter = some w → other.phase.waiter = some w →
    a = b
  admitted : ∀ limit ∈ options.maxWaiters, 0 ≤ limit → s.capacityWaiters.length ≤ limit

/-- A new pool has nobody in line. -/
theorem lined_init (options : PoolOptions) : Lined options (init options : State κ τ) where
  -- There are no calls, and the gate is empty.
  core := core_init options
  waiting := waiting_init options
  apart := by simp [init]
  admitted := by simp [init, Gate.empty]

/-- Every step keeps the line in order. -/
theorem lined_step {action : Action κ τ} (lined : Lined options s)
    (stepped : s.step options action = some next) : Lined options next where
  core := core_step lined.core stepped
  waiting := (step_effect stepped).waiting lined.core lined.waiting
  apart := by
    intro i j first second w readFirst readSecond parked parked'
    cases line_of_step lined.core lined.waiting stepped with
    | queued key cell next gate calls =>
      -- A new call is not parked.
      rw [calls] at readFirst readSecond
      rcases Arena.getElem?_push_cases readFirst with ⟨-, rfl⟩ | before
      · cases parked
      · rcases Arena.getElem?_push_cases readSecond with ⟨-, rfl⟩ | before'
        · cases parked'
        · exact lined.apart i j first second w before before' parked parked'
    | parked action a acquire next continues parks called own left gate calls =>
      rw [calls] at readFirst readSecond
      -- The waiter that the call parks on is new.
      have fresh {k : Nat} {other : Acquire κ} (found : s.acquires[k]? = some other)
          (awaits : other.phase.waiter = some s.waiters.length) : False :=
        Nat.lt_irrefl _ (lined.waiting.known other (List.mem_of_getElem? found) _ awaits)
      rcases Arena.getElem?_modify_cases readFirst with ⟨rfl, old, -, rfl⟩ | ⟨-, before⟩ <;>
        rcases Arena.getElem?_modify_cases readSecond with ⟨rfl, old, -, rfl⟩ | ⟨-, before'⟩
      · rfl
      · cases parked
        exact (fresh before' parked').elim
      · cases parked'
        exact (fresh before parked).elim
      · exact lined.apart i j first second w before before' parked parked'
    -- Whoever moved is parked no longer.
    -- The queue only gets shorter.
    | settled action next stays settles =>
      rcases settles.calls i first readFirst with before | ⟨out, -⟩
      · rcases settles.calls j second readSecond with before' | ⟨out, -⟩
        · exact lined.apart i j first second w before before' parked parked'
        · simp [Phase.waiter_of_lined out] at parked'
      · simp [Phase.waiter_of_lined out] at parked
  admitted := by
    intro limit given positive
    have kept := lined.admitted limit given positive
    cases line_of_step lined.core lined.waiting stepped with
    | queued key cell next gate => rwa [gate]
    | parked action a acquire next continues parks called own left gate =>
      -- There was room in the queue.
      have room : options.maxWaiters.any (fun limit : Int =>
          limit ≤ s.capacityWaiters.length) = false := parks.2.2
      rw [Option.mem_def.mp given] at room
      simp only [Option.any_some, decide_eq_false_iff_not, Int.not_le] at room
      rw [gate]
      simp only [Gate.park, List.length_append, List.length_singleton]
      omega
    | settled action next stays settles =>
      have shorter := (settles.gate.sublist lined.waiting.sound).length_le
      omega

omit [DecidableEq κ] in
/-- A parked call is not queued. -/
theorem isParked_of_isQueued {acquire : Acquire κ} (queued : acquire.phase.isQueued = true) :
    s.isParked acquire = false := by
  -- A call has one phase only.
  unfold isParked
  cases phase : acquire.phase with
  | parked w => simp [phase, Phase.isQueued] at queued
  | _ => rfl

/-- A parked call is one whose waiter is in the queue. -/
theorem Lined.isParked_iff (lined : Lined options s) {acquire : Acquire κ} :
    s.isParked acquire = true ↔
      ∃ w, acquire.phase.waiter = some w ∧ w ∈ s.capacityWaiters := by
  -- The queued waiters are exactly the pending ones.
  unfold isParked
  rw [Option.any_eq_true]
  refine exists_congr fun w => and_congr_right fun _ => ?_
  rw [Option.any_eq_true]
  constructor
  · rintro ⟨waiter, found, pending⟩
    exact (lined.waiting.sound.queued w waiter found).mpr (by simpa using pending)
  · intro queued
    obtain ⟨waiter, found, pending, -⟩ := lined.waiting.sound.pending queued
    exact ⟨waiter, found, by simpa using pending⟩

/-- The queue of waiters is as long as there are parked calls. -/
theorem Lined.length_capacityWaiters (lined : Lined options s) :
    s.capacityWaiters.length = s.acquires.countP s.isParked := by
  -- The parked calls name the queued waiters, each once.
  have same : (s.acquires.filterMap fun acquire =>
      acquire.phase.waiter.filter (· ∈ s.capacityWaiters)).Perm s.capacityWaiters := by
    refine (List.perm_ext_iff_of_nodup ?_ lined.waiting.sound.once).mpr fun w => ?_
    · refine List.pairwise_filterMap.mpr (List.pairwise_iff_getElem.mpr ?_)
      intro i j below below' less w first w' second same
      obtain ⟨parked, -⟩ := Option.filter_eq_some_iff.mp first
      obtain ⟨parked', -⟩ := Option.filter_eq_some_iff.mp second
      have equal := lined.apart i j _ _ w (List.getElem?_eq_getElem below)
        (List.getElem?_eq_getElem below') parked (same ▸ parked')
      omega
    · rw [List.mem_filterMap]
      constructor
      · rintro ⟨acquire, -, named⟩
        simpa using (Option.filter_eq_some_iff.mp named).2
      · intro queued
        obtain ⟨acquire, inside, parked⟩ := lined.waiting.owned w queued
        exact ⟨acquire, inside, Option.filter_eq_some_iff.mpr ⟨parked, by simpa using queued⟩⟩
  rw [← same.length_eq, List.length_filterMap_eq_countP]
  refine List.countP_congr fun acquire _ => ?_
  rw [lined.isParked_iff, Option.isSome_iff_exists]
  refine exists_congr fun w => ?_
  rw [Option.filter_eq_some_iff]
  simp

/-- Nobody is queued behind a parked call of its key. -/
def NoneBehind (s : State κ τ) : Prop :=
  ∀ acquire ∈ s.acquires, acquire.phase.isQueued = true → ∀ other ∈ s.acquires,
    other.key = acquire.key → s.isParked other = false

/-- The blocked calls are capped exactly when nobody is queued behind a parked one. -/
theorem Lined.capped_iff_noneBehind (lined : Lined options s) :
    s.Capped options ↔ s.NoneBehind := by
  have parked := lined.length_capacityWaiters
  constructor
  · rintro ⟨counted, -⟩ acquire inside queued other inside' same
    -- A call queued behind a parked one is blocked without being counted.
    refine Bool.eq_false_iff.mpr fun stuck => ?_
    have more : s.acquires.countP s.isParked < s.acquires.countP s.isBlocked := by
      refine Arena.countP_lt_of_gain (fun call _ waits => by simp [isBlocked, waits]) inside ?_ ?_
      · simp [isParked_of_isQueued queued]
      · simp only [isBlocked, queued, Bool.true_and, Bool.or_eq_true, List.any_eq_true,
          Bool.and_eq_true, decide_eq_true_eq]
        exact .inr ⟨other, inside', same, stuck⟩
    have counted : s.capacityWaiters.length = s.acquires.countP s.isBlocked := counted
    omega
  · intro alone
    have blocked : s.blocked = s.capacityWaiters.length := by
      rw [parked]
      refine List.countP_congr fun acquire inside => ?_
      simp only [isBlocked, Bool.or_eq_true, Bool.and_eq_true, List.any_eq_true,
        decide_eq_true_eq, or_iff_left_iff_imp]
      rintro ⟨queued, other, inside', same, stuck⟩
      simp [alone acquire inside queued other inside' same] at stuck
    exact ⟨blocked.symm, fun limit given positive =>
      blocked ▸ lined.admitted limit given positive⟩

/-- A call in line that is there before and after a step is parked after it only if it was. -/
theorem Lined.isParked_of_less (lined : Lined options s) (later : Lined options next)
    {acquire : Acquire κ} (less : ∀ w, acquire.phase.waiter = some w → w ∈ next.capacityWaiters →
      w ∈ s.capacityWaiters) (parked : next.isParked acquire = true) :
    s.isParked acquire = true := by
  -- The waiter that the call awaits was in the queue already.
  obtain ⟨w, awaits, queued⟩ := later.isParked_iff.mp parked
  exact lined.isParked_iff.mpr ⟨w, awaits, less w awaits queued⟩

/-- While nobody gets queued behind a parked call, nobody is. -/
theorem Lined.noneBehind_step {action : Action κ τ} (lined : Lined options s)
    (alone : s.NoneBehind) (met : Unfollowed options s action)
    (stepped : s.step options action = some next) : next.NoneBehind := by
  have later := lined_step lined stepped
  intro acquire inside queued other inside' same
  refine Bool.eq_false_iff.mpr fun stuck => ?_
  obtain ⟨i, read⟩ := List.mem_iff_getElem?.mp inside
  obtain ⟨j, read'⟩ := List.mem_iff_getElem?.mp inside'
  cases line_of_step lined.core lined.waiting stepped with
  -- The new call has no parked one of its key before it.
  | queued key cell next gate calls =>
    rw [calls] at read read'
    rcases Arena.getElem?_push_cases read' with ⟨-, rfl⟩ | before'
    · rw [isParked_of_isQueued rfl] at stuck
      cases stuck
    · have parked := lined.isParked_of_less later (fun w _ inside => gate ▸ inside) stuck
      have old := List.mem_of_getElem? before'
      rcases Arena.getElem?_push_cases read with ⟨-, rfl⟩ | before
      · simp [met other old same] at parked
      · simp [alone acquire (List.mem_of_getElem? before) queued other old same] at parked
  | parked action a caller next continues parks called own left gate calls =>
    rw [calls] at read read'
    have met : ∀ (b : Nat) other, s.acquires[b]? = some other → b ≠ a →
        other.key = caller.key → other.phase.isQueued = false := by
      have guarded := met
      cases action with
      | obtain | discarded | resume =>
        cases continues
        exact guarded parks a rfl caller called
      | _ => cases continues
    rcases Arena.getElem?_modify_cases read with ⟨rfl, old, -, rfl⟩ | ⟨differ, before⟩
    · cases queued
    · rcases Arena.getElem?_modify_cases read' with ⟨rfl, old, before', rfl⟩ | ⟨-, before'⟩
      · -- The call that parks is followed by nobody.
        cases called.symm.trans before'
        simp [met i acquire before (Ne.symm differ) same.symm] at queued
      · have parked := lined.isParked_of_less later (fun w awaits inside => by
          rw [gate] at inside
          rcases List.mem_append.mp inside with earlier | new
          · exact earlier
          · rw [List.mem_singleton.mp new] at awaits
            exact absurd (lined.waiting.known other (List.mem_of_getElem? before') _ awaits)
              (Nat.lt_irrefl _)) stuck
        simp [alone acquire (List.mem_of_getElem? before) queued other
          (List.mem_of_getElem? before') same] at parked
  -- Nobody parks, and whoever moves is queued no longer.
  | settled action next stays settles =>
    have less := settles.gate.fewer lined.waiting.sound
    have parked := lined.isParked_of_less later (fun w _ inside => less w inside) stuck
    rcases settles.calls i acquire read with before | ⟨out, -⟩
    · rcases settles.calls j other read' with before' | ⟨out, -⟩
      · simp [alone acquire (List.mem_of_getElem? before) queued other
          (List.mem_of_getElem? before') same] at parked
      · simp [isParked, Phase.waiter_of_lined out] at parked
    · generalize acquire.phase = phase at out queued
      cases phase <;> simp [Phase.isQueued, Phase.lined] at out queued

/-- Where nobody is queued behind a parked call after a step, the step queued nobody there. -/
theorem Lined.unfollowed_of_noneBehind {action : Action κ τ} (lined : Lined options s)
    (stepped : s.step options action = some next) (alone : next.NoneBehind) :
    Unfollowed options s action := by
  have later := lined_step lined stepped
  have line := line_of_step lined.core lined.waiting stepped
  have parking (parks : s.Parks options action) : ∀ a ∈ caller action,
      ∀ acquire ∈ s.acquires[a]?, ∀ (b : Nat) other, s.acquires[b]? = some other → b ≠ a →
        other.key = acquire.key → other.phase.isQueued = false := by
    intro a continues acquire called b other found differ same
    cases line with
    | queued key => cases continues
    | settled action next stays => exact absurd parks stays
    | parked action own record next continues' _ called' _ left gate calls =>
      obtain rfl : own = a := Option.some.inj (continues'.symm.trans continues)
      cases called.symm.trans called'
      refine Bool.eq_false_iff.mpr fun queued => ?_
      -- The call that parks is parked afterwards, and the other still queued.
      have still : next.acquires[b]? = some other := by
        rw [calls, Arena.getElem?_modify_other _ _ (Ne.symm differ), found]
      have moved : next.acquires[own]? =
          some { acquire with phase := .parked s.waiters.length } := by
        rw [calls]
        exact Arena.getElem?_modify_self _ called
      have parked : next.isParked { acquire with phase := .parked s.waiters.length } = true :=
        later.isParked_iff.mpr ⟨s.waiters.length, rfl, by simp [gate, Gate.park]⟩
      simp [alone other (List.mem_of_getElem? still) queued _ (List.mem_of_getElem? moved)
        same.symm] at parked
  -- An arrival is checked against the parked calls, and any other step by whom it parks.
  cases action with
  | acquire key =>
    intro other inside same
    refine Bool.eq_false_iff.mpr fun stuck => ?_
    obtain ⟨w, awaits, queued⟩ := lined.isParked_iff.mp stuck
    obtain ⟨b, found⟩ := List.mem_iff_getElem?.mp inside
    cases line with
    | queued key cell next gate calls =>
      have parked : next.isParked other = true :=
        later.isParked_iff.mpr ⟨w, awaits, gate ▸ queued⟩
      have joined : ⟨key, cell, .queued ((s.toKeyState.incPending key).tailOf key)⟩ ∈
          next.acquires := by simp [calls]
      simp [alone _ joined rfl other (by simp [calls, inside]) same] at parked
    | parked action a acquire next continues => cases continues
    | settled action next stays settles =>
      -- The fast path needs a live entry, and the key of a parked call has none.
      have fits := lined.core.phases b other found
      cases phase : other.phase with
      | parked w =>
        rw [phase, same] at fits
        cases step_effect stepped with
        | shared key e entry bound => simp [fits.1] at bound
        | queued key =>
          rcases settles.calls s.acquires.length _ List.getElem?_concat_length with
            before | ⟨out, -⟩
          · simp at before
          · cases out
      | _ => simp [phase, Phase.waiter] at awaits
  | _ => exact parking

/--
Throughout a run the cap on the waiters covers every call that is blocked on capacity exactly when
nobody gets queued behind a parked call of its key.
-/
theorem capped_iff (options : PoolOptions) (actions : List (Action κ τ)) :
    Runs.Throughout (step options) (Capped options) (init options) actions ↔
      Runs.Guarded (step options) (Unfollowed options) (init options) actions := by
  -- Each step queues somebody behind a parked call exactly when somebody is behind one after it.
  constructor
  · intro all
    have kept : ∀ s (action : Action κ τ) next, Lined options s →
        s.step options action = some next → Lined options next := fun _ _ _ => lined_step
    exact all.guarded kept
      (fun s action next lined _ stepped capped =>
        lined.unfollowed_of_noneBehind stepped
          ((lined_step lined stepped).capped_iff_noneBehind.mp capped))
      (lined_init options)
  · intro guarded
    have kept := guarded.throughout (fun s : State κ τ => Lined options s ∧ s.NoneBehind)
      (fun s action next ⟨lined, alone⟩ met stepped =>
        ⟨lined_step lined stepped, lined.noneBehind_step alone met stepped⟩)
      ⟨lined_init options, by simp [NoneBehind, init]⟩
    exact kept.mono fun s ⟨lined, alone⟩ => lined.capped_iff_noneBehind.mpr alone

/-- With room for one waiter, a second call of its key is blocked behind it and not counted. -/
theorem capped_queued :
    let options : PoolOptions := { max := 1, maxWaiters := some 1 }
    ¬ Runs.Throughout (step options) (Capped options) (init options : State Nat Nat)
      [.acquire 7, .obtain 0, .create 0 .threw, .factoryCalled 0, .factorySettled 0 (some 70),
        .execSettled 0 (some 70), .deliver 0, .acquire 8, .obtain 1, .acquire 8] := by
  -- The second call of key 8 is queued behind the first, and nobody counts it.
  decide

end State

end RefPool
