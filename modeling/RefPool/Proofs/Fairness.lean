import RefPool.Proofs.Blocked
import RefPool.Proofs.Lifecycle
import Mathlib.Data.List.Pairwise

/-! When calls that wait for capacity are served in the order in which they first parked. -/

namespace RefPool

namespace Gate

variable {gate next : Gate}

/-- Waiters queue in the order they were built in, and are woken in that order. -/
structure InTurn (gate : Gate) : Prop where
  sorted : gate.capacityWaiters.Pairwise (· < ·)
  woken : ∀ (w : Nat) waiter, gate.waiters[w]? = some waiter → waiter.promise = .resolved →
    ∀ v ∈ gate.capacityWaiters, w < v
  /-- Nobody who was let into the queue is turned away for its length. -/
  admitted : ∀ (w : Nat) waiter, gate.waiters[w]? = some waiter →
    waiter.promise ≠ .rejected .poolExhausted

/-- A new gate has nobody waiting. -/
theorem inTurn_empty : InTurn empty := by
  -- There are no waiters.
  constructor <;> simp [empty]

namespace InTurn

/-- Rejecting a waiter keeps the order. -/
theorem reject (turn : gate.InTurn) (sound : gate.Sound) {w : WaiterId} {error : PoolError}
    (due : error ≠ .poolExhausted) : (gate.settleWaiter w (.rejected error)).InTurn where
  -- The queue loses one waiter, and nobody is woken.
  sorted := turn.sorted.sublist ((Moves.rejected gate w error due).sublist sound)
  woken := by
    intro v waiter found resolved u queued
    obtain ⟨before, present, rfl | ⟨-, -, rejected⟩⟩ := sound.settle_waiter found
    · exact turn.woken v waiter present resolved u
        ((Moves.rejected gate w error due).fewer sound u queued)
    · simp [rejected] at resolved
  admitted := by
    intro v waiter found
    obtain ⟨before, present, rfl | ⟨-, -, rejected⟩⟩ := sound.settle_waiter found
    · exact turn.admitted v waiter present
    · simpa [rejected] using due

/-- Waking the first waiter keeps the order. -/
theorem wake (turn : gate.InTurn) (sound : gate.Sound) : gate.wakeCapacityWaiter.InTurn := by
  rcases sound.wake_eq with ⟨same, -⟩ | ⟨w, rest, queue, same, popped⟩
  · rwa [same]
  have ordered := List.pairwise_cons.mp (queue ▸ turn.sorted)
  refine ⟨by rw [popped]; exact ordered.2, fun v waiter found resolved u queued => ?_,
    fun v waiter found => ?_⟩
  · rw [popped] at queued
    rw [same] at found
    obtain ⟨before, present, rfl | ⟨rfl, -, -⟩⟩ := sound.settle_waiter found
    · exact turn.woken v waiter present resolved u (by simp [queue, queued])
    · -- The waiter that is woken stood before the rest.
      exact ordered.1 u queued
  · rw [same] at found
    obtain ⟨before, present, rfl | ⟨-, -, resolved⟩⟩ := sound.settle_waiter found
    · exact turn.admitted v waiter present
    · simp [resolved]

/-- Whatever happens while nobody parks keeps the order. -/
theorem moves (turn : gate.InTurn) (sound : gate.Sound) (moves : Moves gate next) :
    next.InTurn := by
  -- Each kind of move keeps the order, and a drain leaves nobody to wait.
  induction moves with
  | same => exact turn
  | reserved => exact ⟨turn.sorted, turn.woken, turn.admitted⟩
  | woken gate => exact turn.wake sound
  | rejected gate w error due => exact turn.reject sound due
  | emptied gate error due =>
    have nobody := (sound.reject error).2
    refine ⟨by simp [nobody], by simp [nobody], fun w waiter found => ?_⟩
    obtain ⟨before, present, rfl | ⟨-, rejected⟩⟩ := sound.reject_waiter error found
    · exact turn.admitted w waiter present
    · simpa [rejected] using due
  | trans first _ earlier later => exact later (earlier turn sound) (first.sound sound)

/-- Parking behind everybody else keeps the order. -/
theorem park (turn : gate.InTurn) (sound : gate.Sound) (timeout : Duration) (now : Int) :
    (gate.park timeout now).InTurn where
  -- The new waiter has the highest number of all.
  sorted := by
    refine List.pairwise_append.mpr ⟨turn.sorted, by simp, fun w queued v new => ?_⟩
    rw [List.mem_singleton.mp new]
    exact sound.known w queued
  woken := by
    intro w waiter found resolved v queued
    rcases Arena.getElem?_push_cases found with ⟨-, rfl⟩ | before
    · cases resolved
    · rcases List.mem_append.mp queued with earlier | new
      · exact turn.woken w waiter before resolved v earlier
      · rw [List.mem_singleton.mp new]
        exact (List.getElem?_eq_some_iff.mp before).1
  admitted := by
    intro w waiter found
    rcases Arena.getElem?_push_cases found with ⟨-, rfl⟩ | before
    · simp
    · exact turn.admitted w waiter before

end InTurn

end Gate

namespace State

variable {κ τ : Type} [DecidableEq κ] {options : PoolOptions} {s next : State κ τ}

/-- Whether a call has just been granted a slot. -/
def isGranted (s : State κ τ) (a : AcquireId) : Bool :=
  (s.acquires[a]?).any fun acquire => acquire.phase = .granted

/-- Whether a call is parked, and its waiter has not been rejected. -/
def inLine (s : State κ τ) (a : AcquireId) : Bool :=
  (s.acquires[a]?).any fun acquire => acquire.phase.waiter.any fun w =>
    (s.waiters[w]?).any fun waiter => waiter.promise = .pending ∨ waiter.promise = .resolved

/-- Whether a waiter has been woken. -/
def isWoken (s : State κ τ) (w : WaiterId) : Bool :=
  (s.waiters[w]?).any fun waiter => waiter.promise = .resolved

/-- Woken calls resume in the order in which they were woken, as promise reactions run. -/
def InOrder (s : State κ τ) : Action κ τ → Prop
  | .resume a => ∀ acquire ∈ s.acquires[a]?, ∀ w ∈ acquire.phase.waiter, s.isWoken w = true →
      ∀ other ∈ s.acquires, ∀ v ∈ other.phase.waiter, s.isWoken v = true → w ≤ v
  | _ => True

/-- A woken call finds a slot or something to evict, unless the pool was closed. -/
def Served (options : PoolOptions) (s : State κ τ) : Action κ τ → Prop
  | .resume a => s.contends (.resume a : Action κ τ) = true → ¬ s.Saturated options
  | _ => True

omit [DecidableEq κ] in
/-- Whether a call resumes out of order can be checked. -/
instance (s : State κ τ) (action : Action κ τ) : Decidable (s.InOrder action) := by
  induction action using Action.casesOn <;> unfold InOrder <;> infer_instance

/-- Whether a woken call is served can be checked. -/
instance (s : State κ τ) (action : Action κ τ) : Decidable (s.Served options action) := by
  induction action using Action.casesOn <;> unfold Served <;> infer_instance

/-- A woken call that is served goes on without being turned away. -/
theorem not_exhausted_of_resume {a : AcquireId} {after : Acquire κ}
    (stepped : s.step options (.resume a) = some next) (served : s.Served options (.resume a))
    (turn : s.toGate.InTurn) (read : next.acquires[a]? = some after) :
    after.phase ≠ .threw .poolExhausted := by
  -- The loop turns a call away in a saturated pool only.
  cases step_effect stepped with
  | resumed _ acquire w waiter _ called phase found woken effect =>
    have roomy : ¬ s.Saturated options :=
      served (by simp [contends, called, phase, Phase.waiter, found, woken])
    have moved {phase : Phase} (at_ : (s.acquires.modify a fun acquire =>
        { acquire with phase })[a]? = some after) : after.phase = phase := by
      rw [Arena.getElem?_modify_self _ called] at at_
      cases at_
      rfl
    cases effect with
    | exhausted bounded opened full busy | parked bounded opened full busy =>
      exact absurd ⟨bounded, opened, full, busy⟩ roomy
    | unbounded | refused | reserved | evicted =>
      rw [moved read]
      simp
  -- A waiter that was let in is rejected for other reasons.
  | abandoned _ acquire w waiter error called phase found rejected =>
    have read : (s.acquires.modify a fun acquire => { acquire with phase := .threw error })[a]? =
        some after := read
    rw [Arena.getElem?_modify_self _ called] at read
    cases read
    have due := turn.admitted w waiter found
    rw [rejected] at due
    simpa using due

end State

/-- A pool, with the calls that have parked for capacity in the order in which they first did. -/
structure Arrivals (κ τ : Type) where
  pool : State κ τ
  arrivals : List AcquireId

namespace Arrivals

variable {κ τ : Type} [DecidableEq κ] {options : PoolOptions} {s next : Arrivals κ τ}

/-- A new pool, for which nobody has waited. -/
def init (options : PoolOptions) : Arrivals κ τ := ⟨State.init options, []⟩

/-- Whether a call is parked. -/
def parkedAt (pool : State κ τ) (a : AcquireId) : Bool :=
  (pool.acquires[a]?).any fun acquire => acquire.phase.waiter.isSome

/-- Put the calls that have parked for the first time behind the others. -/
def arrive (arrivals : List AcquireId) (pool : State κ τ) : List AcquireId :=
  arrivals ++ (List.range pool.acquires.length).filter fun a =>
    parkedAt pool a && !arrivals.contains a

/-- The effect of an action on the pool, observed. -/
def step (options : PoolOptions) (s : Arrivals κ τ) (action : Action κ τ) :
    Option (Arrivals κ τ) :=
  (s.pool.step options action).map fun pool => ⟨pool, arrive s.arrivals pool⟩

/-- Calls that have parked are granted slots in the order of arrival, and never turned away. -/
structure FirstServed (s : Arrivals κ τ) : Prop where
  order : s.arrivals.Pairwise fun first later =>
    s.pool.isGranted later = true → s.pool.inLine first = false
  admitted : ∀ a ∈ s.arrivals, ∀ acquire ∈ s.pool.acquires[a]?,
    acquire.phase ≠ .threw .poolExhausted ∧ acquire.phase ≠ .rejected .poolExhausted

/-- Whether calls have been served in order can be checked. -/
instance (s : Arrivals κ τ) : Decidable s.FirstServed :=
  decidable_of_iff
    ((s.arrivals.Pairwise fun first later =>
        s.pool.isGranted later = true → s.pool.inLine first = false) ∧
      ∀ a ∈ s.arrivals, ∀ acquire ∈ s.pool.acquires[a]?,
        acquire.phase ≠ .threw .poolExhausted ∧ acquire.phase ≠ .rejected .poolExhausted)
    ⟨fun ⟨order, admitted⟩ => ⟨order, admitted⟩, fun ⟨order, admitted⟩ => ⟨order, admitted⟩⟩

/-- What a run keeps while woken calls are served in order. -/
structure InTurn (options : PoolOptions) (s : Arrivals κ τ) : Prop where
  lined : s.pool.Lined options
  gate : s.pool.toGate.InTurn
  /-- Every parked call has arrived. -/
  arrived : ∀ (a : Nat) acquire w, s.pool.acquires[a]? = some acquire →
    acquire.phase.waiter = some w → a ∈ s.arrivals
  /-- A call that has arrived is past its search for an entry. -/
  past : ∀ a ∈ s.arrivals, a < s.pool.acquires.length ∧
    ∀ acquire ∈ s.pool.acquires[a]?, acquire.phase.isEarly = false
  /-- Calls that are parked wait in the order of their arrival. -/
  ranked : s.arrivals.Pairwise fun first later => ∀ acquire ∈ s.pool.acquires[first]?,
    ∀ other ∈ s.pool.acquires[later]?, ∀ w ∈ acquire.phase.waiter, ∀ v ∈ other.phase.waiter, w < v
  served : s.FirstServed

/-- A new pool has nobody in line. -/
theorem inTurn_init (options : PoolOptions) : InTurn options (init options : Arrivals κ τ) where
  -- There are no calls, and nobody has arrived.
  lined := State.lined_init options
  gate := Gate.inTurn_empty
  arrived := by simp [init, State.init]
  past := by simp [init]
  ranked := .nil
  served := ⟨.nil, by simp [init]⟩

omit [DecidableEq κ] in
/-- Every parked call is among the arrivals. -/
theorem mem_arrive {arrivals : List AcquireId} {pool : State κ τ} {a : Nat} {acquire : Acquire κ}
    {w : WaiterId} (read : pool.acquires[a]? = some acquire)
    (parked : acquire.phase.waiter = some w) : a ∈ arrive arrivals pool := by
  -- Who is parked is put behind the others, unless he is among them.
  have below := (List.getElem?_eq_some_iff.mp read).1
  have parks : parkedAt pool a = true := by simp only [parkedAt, read, Option.any_some, parked]; rfl
  by_cases before : a ∈ arrivals
  · exact List.mem_append_left _ before
  · exact List.mem_append_right _ (by simp [below, before, parks])

section Advance

variable (turn : InTurn options s) {action : Action κ τ} {pool : State κ τ}
  (stepped : s.pool.step options action = some pool)

include turn stepped

/-- Every step lets waiters queue in turn. -/
theorem InTurn.gate_step : pool.toGate.InTurn := by
  -- Parking is at the end of the queue.
  have sound := turn.lined.waiting.sound
  cases State.line_of_step turn.lined.core turn.lined.waiting stepped with
  | queued key cell next gate => exact gate ▸ turn.gate
  | parked action a acquire next continues parks called own left gate =>
    rw [gate]
    exact turn.gate.park sound options.timeout s.pool.now
  | settled action next stays settles => exact turn.gate.moves sound settles.gate

/-- A call that is parked was parked as it is, or has just parked for the first time. -/
theorem InTurn.parked_of_step (served : s.pool.Served options action) {a : Nat}
    {after : Acquire κ} {w : WaiterId} (read : pool.acquires[a]? = some after)
    (parked : after.phase.waiter = some w) : s.pool.acquires[a]? = some after ∨
      (a ∉ s.arrivals ∧ w = s.pool.waiters.length ∧ State.caller action = some a) := by
  -- Only the caller of the step parks, and one that has arrived would have been woken.
  cases State.line_of_step turn.lined.core turn.lined.waiting stepped with
  | queued key cell next gate calls =>
    rcases Arena.getElem?_push_cases (calls ▸ read) with ⟨-, rfl⟩ | before
    · cases parked
    · exact .inl before
  | parked action b acquire next continues parks called own left gate calls =>
    rcases Arena.getElem?_modify_cases (calls ▸ read) with ⟨rfl, old, before, rfl⟩ | ⟨-, before⟩
    · cases called.symm.trans before
      refine .inr ⟨fun arrived => ?_, by cases parked; rfl, continues⟩
      -- A call that has arrived parks again only if it was woken and is not served.
      rcases State.call_of_step turn.lined.core stepped read with
        ⟨record, found, -, same | ⟨-, goes⟩⟩ | ⟨last, -⟩
      · cases called.symm.trans found
        have phase := congrArg Acquire.phase same
        have waits : acquire.phase.waiter ≠ none := by simp [← phase, Phase.waiter]
        cases own waits
        exact served parks.1 parks.2.1
      · cases called.symm.trans found
        obtain ⟨v, phase⟩ := goes.parked_of_verdict rfl ((turn.past b arrived).2 acquire called)
        cases own (by simp [phase, Phase.waiter])
        exact served parks.1 parks.2.1
      · exact absurd (last ▸ (turn.past b arrived).1) (Nat.lt_irrefl _)
    · exact .inl before
  | settled action next stays settles =>
    rcases settles.calls a after read with before | ⟨out, -⟩
    · exact .inl before
    · simp [Phase.waiter_of_lined out] at parked

/-- A parked call leaves the line by resuming. -/
theorem InTurn.resumes_of_moved {a : Nat} {before after : Acquire κ}
    (found : s.pool.acquires[a]? = some before) (waits : before.phase.waiter ≠ none)
    (read : pool.acquires[a]? = some after) (left : after.phase.waiter = none) :
    action = .resume a := by
  -- A parked call moves only when its waiter has settled.
  cases State.line_of_step turn.lined.core turn.lined.waiting stepped with
  | queued key cell next gate calls =>
    rw [calls, Arena.getElem?_push_of_some _ found] at read
    cases read
    exact absurd left waits
  | parked action b acquire next continues parks called own out gate calls =>
    rcases Arena.getElem?_modify_cases (calls ▸ read) with ⟨-, old, -, rfl⟩ | ⟨-, same⟩
    · cases left
    · cases found.symm.trans same
      exact absurd left waits
  | settled action next stays settles =>
    rcases settles.calls a after read with same | ⟨-, answered⟩
    · cases found.symm.trans same
      exact absurd left waits
    · exact (answered before found waits).1

/-- A call that has arrived is granted a slot by resuming. -/
theorem InTurn.granted_of_step {a : AcquireId} (arrived : a ∈ s.arrivals)
    (granted : pool.isGranted a = true) : s.pool.isGranted a = true ∨
      ∃ acquire w, action = .resume a ∧ s.pool.acquires[a]? = some acquire ∧
        acquire.phase.waiter = some w ∧ s.pool.isWoken w = true := by
  -- A call past its search is granted a slot only from being parked.
  obtain ⟨after, read, phase⟩ := Option.any_eq_true _ _ |>.mp granted
  have phase : after.phase = .granted := by simpa using phase
  rcases State.call_of_step turn.lined.core stepped read with
    ⟨before, found, -, rfl | ⟨-, goes⟩⟩ | ⟨last, -⟩
  · exact .inl (by simp [State.isGranted, found, phase])
  · obtain ⟨w, parked⟩ := goes.parked_of_verdict (by rw [phase]; rfl)
      ((turn.past a arrived).2 before found)
    have waits : before.phase.waiter ≠ none := by simp [parked, Phase.waiter]
    refine .inr ⟨before, w, ?_⟩
    have resumes := turn.resumes_of_moved stepped found waits read (by rw [phase]; rfl)
    subst resumes
    refine ⟨rfl, found, by simp [parked, Phase.waiter], ?_⟩
    -- It resumed with a slot, so its waiter had been woken.
    cases State.step_effect stepped with
    | resumed _ acquire v waiter _ called parked' there woken =>
      cases found.symm.trans called
      cases parked.symm.trans parked'
      simp [State.isWoken, there, woken]
    | abandoned _ acquire v waiter error called =>
      have read : (s.pool.acquires.modify a fun acquire =>
          { acquire with phase := .threw error })[a]? = some after := read
      rw [Arena.getElem?_modify_self _ called] at read
      cases read
      cases phase
  · exact absurd (last ▸ (turn.past a arrived).1) (Nat.lt_irrefl _)

/-- A call that is still in line was in line before. -/
theorem InTurn.inLine_of_step (served : s.pool.Served options action) {a : AcquireId}
    (arrived : a ∈ s.arrivals) (waits : pool.inLine a = true) : s.pool.inLine a = true := by
  obtain ⟨after, read, waits⟩ := Option.any_eq_true _ _ |>.mp waits
  obtain ⟨w, parked, waits⟩ := Option.any_eq_true _ _ |>.mp waits
  obtain ⟨waiter, there, waits⟩ := Option.any_eq_true _ _ |>.mp waits
  rcases turn.parked_of_step stepped served read parked with found | ⟨absent, -⟩
  · -- The waiter is as it was, or has been woken since.
    obtain ⟨before, present, awaited⟩ : ∃ before, s.pool.waiters[w]? = some before ∧
        (before.promise = .pending ∨ before.promise = .resolved) := by
      have waits : waiter.promise = .pending ∨ waiter.promise = .resolved := by simpa using waits
      have known := turn.lined.waiting.known after (List.mem_of_getElem? found) w parked
      cases State.line_of_step turn.lined.core turn.lined.waiting stepped with
      | queued key cell next gate => exact ⟨waiter, gate ▸ there, waits⟩
      | parked action b acquire next continues parks called own left gate =>
        rw [gate] at there
        rcases Arena.getElem?_push_cases there with ⟨last, -⟩ | before
        · exact absurd (last ▸ known) (Nat.lt_irrefl _)
        · exact ⟨waiter, before, waits⟩
      | settled action next stays settles =>
        obtain ⟨before, present, rfl | ⟨pending, -⟩⟩ :=
          settles.gate.waiter turn.lined.waiting.sound there
        · exact ⟨waiter, present, waits⟩
        · exact ⟨before, present, .inl pending⟩
    simp [State.inLine, found, parked, present, awaited]
  · exact absurd arrived absent

/-- Nobody arrives in a step, or the one call that parks for the first time does. -/
theorem InTurn.arrive_cases (served : s.pool.Served options action) :
    arrive s.arrivals pool = s.arrivals ∨ ∃ a, a ∉ s.arrivals ∧
      arrive s.arrivals pool = s.arrivals ++ [a] ∧ ∃ after ∈ pool.acquires[a]?,
        after.phase.waiter = some s.pool.waiters.length := by
  have newcomer {a : AcquireId} (new : a ∈ (List.range pool.acquires.length).filter fun a =>
      parkedAt pool a && !s.arrivals.contains a) : State.caller action = some a ∧
        a ∉ s.arrivals ∧ ∃ after ∈ pool.acquires[a]?,
          after.phase.waiter = some s.pool.waiters.length := by
    simp only [List.mem_filter, Bool.and_eq_true, Bool.not_eq_eq_eq_not, Bool.not_true,
      List.contains_eq_mem, decide_eq_false_iff_not] at new
    obtain ⟨-, parks, absent⟩ := new
    obtain ⟨after, read, waits⟩ := Option.any_eq_true _ _ |>.mp parks
    obtain ⟨w, parked⟩ := Option.isSome_iff_exists.mp waits
    rcases turn.parked_of_step stepped served read parked with before | ⟨-, rfl, continues⟩
    · exact absurd (turn.arrived a after w before parked) absent
    · exact ⟨continues, absent, after, read, parked⟩
  have once : ((List.range pool.acquires.length).filter fun a =>
      parkedAt pool a && !s.arrivals.contains a).Nodup := List.nodup_range.filter _
  unfold arrive
  -- All newcomers are the caller of the step.
  cases new : (List.range pool.acquires.length).filter fun a =>
      parkedAt pool a && !s.arrivals.contains a with
  | nil => exact .inl (List.append_nil _)
  | cons a rest =>
    rw [new] at newcomer once
    obtain ⟨continues, absent, parked⟩ := newcomer List.mem_cons_self
    cases rest with
    | nil => exact .inr ⟨a, absent, rfl, parked⟩
    | cons b rest =>
      have same := (newcomer (a := b) (by simp)).1
      cases continues.symm.trans same
      simp at once

/-- A call that has arrived stays past its search for an entry. -/
theorem InTurn.past_step {a : AcquireId} (arrived : a ∈ s.arrivals) :
    a < pool.acquires.length ∧ ∀ acquire ∈ pool.acquires[a]?, acquire.phase.isEarly = false := by
  obtain ⟨below, past⟩ := turn.past a arrived
  have there := List.getElem?_eq_getElem below
  obtain ⟨after, read, step⟩ := State.call_goes turn.lined.core stepped there
  refine ⟨(List.getElem?_eq_some_iff.mp read).1, fun record present => ?_⟩
  cases read.symm.trans present
  rcases step with same | goes
  · exact same ▸ past _ there
  · -- Only an early call goes on to an early phase.
    refine Bool.eq_false_iff.mpr fun early => ?_
    have searching := goes.isEarly_before early
    simp [past _ there] at searching

/-- What is parked under a call that has arrived was parked there before. -/
theorem InTurn.still_parked (served : s.pool.Served options action) {a : AcquireId}
    (arrived : a ∈ s.arrivals) {after : Acquire κ} {w : WaiterId}
    (read : pool.acquires[a]? = some after) (parked : after.phase.waiter = some w) :
    s.pool.acquires[a]? = some after :=
  -- A call that parks anew in this step has not arrived before.
  (turn.parked_of_step stepped served read parked).resolve_right fun new => new.1 arrived

/-- Those who have arrived wait in the order of their arrival. -/
theorem InTurn.ranked_step (served : s.pool.Served options action) :
    s.arrivals.Pairwise fun first later => ∀ acquire ∈ pool.acquires[first]?,
      ∀ other ∈ pool.acquires[later]?, ∀ w ∈ acquire.phase.waiter,
        ∀ v ∈ other.phase.waiter, w < v :=
  -- Both calls were parked before the step, where the order was known.
  turn.ranked.imp_of_mem fun first later ranked acquire read other read' w parked v parked' =>
    ranked acquire (turn.still_parked stepped served first read parked) other
      (turn.still_parked stepped served later read' parked') w parked v parked'

/-- Nobody who has arrived is granted a slot before those who arrived earlier. -/
theorem InTurn.order_step (ordered : s.pool.InOrder action)
    (served : s.pool.Served options action) :
    s.arrivals.Pairwise fun first later =>
      pool.isGranted later = true → pool.inLine first = false := by
  refine (turn.served.order.and turn.ranked).imp_of_mem ?_
  rintro first later firstIn laterIn ⟨order, ranked⟩ granted
  refine Bool.eq_false_iff.mpr fun waits => ?_
  have before := turn.inLine_of_step stepped served firstIn waits
  rcases turn.granted_of_step stepped laterIn granted with
    already | ⟨acquire, v, rfl, called, parked, woken⟩
  · simp [order already] at before
  · obtain ⟨other, found, before⟩ := Option.any_eq_true _ _ |>.mp before
    obtain ⟨w, parked', before⟩ := Option.any_eq_true _ _ |>.mp before
    obtain ⟨waiter, there, before⟩ := Option.any_eq_true _ _ |>.mp before
    have less := ranked other found acquire called w parked' v parked
    have awaited : waiter.promise = .pending ∨ waiter.promise = .resolved := by simpa using before
    rcases awaited with pending | resolved
    · -- The one that was woken stood before all that are still queued.
      have queued := (turn.lined.waiting.sound.queued w waiter there).mpr pending
      obtain ⟨record, present, resolved⟩ := Option.any_eq_true _ _ |>.mp woken
      have before := turn.gate.woken v record present (by simpa using resolved) w queued
      exact absurd (Nat.lt_trans less before) (Nat.lt_irrefl _)
    · -- The first to be woken resumes first.
      have first := ordered acquire called v parked woken other (List.mem_of_getElem? found) w
        parked' (by simp [State.isWoken, there, resolved])
      exact absurd (Nat.lt_of_lt_of_le less first) (Nat.lt_irrefl _)

/-- Nobody who has arrived is turned away. -/
theorem InTurn.admitted_step (served : s.pool.Served options action) :
    ∀ a ∈ s.arrivals, ∀ after ∈ pool.acquires[a]?,
      after.phase ≠ .threw .poolExhausted ∧ after.phase ≠ .rejected .poolExhausted := by
  intro a arrived after read
  rcases State.call_of_step turn.lined.core stepped read with
    ⟨before, found, -, rfl | ⟨-, goes⟩⟩ | ⟨last, -⟩
  · exact turn.served.admitted a arrived after found
  · have admitted := turn.served.admitted a arrived before found
    constructor
    · -- Only the resumption of a parked call could turn it away.
      intro refused
      obtain ⟨w, parked⟩ := goes.parked_of_verdict (by rw [refused]; rfl)
        ((turn.past a arrived).2 before found)
      cases turn.resumes_of_moved stepped found (by simp [parked, Phase.waiter]) read
        (by rw [refused]; rfl)
      exact State.not_exhausted_of_resume stepped served turn.gate read refused
    · -- A rejection delivers an error that was thrown before.
      intro refused
      rw [refused] at goes
      generalize before.phase = phase at goes admitted
      cases goes
      exact admitted.1 rfl
  · exact absurd (last ▸ (turn.past a arrived).1) (Nat.lt_irrefl _)

/-- Serving woken calls in order keeps everybody in turn. -/
theorem inTurn_step (ordered : s.pool.InOrder action) (served : s.pool.Served options action) :
    InTurn options ⟨pool, arrive s.arrivals pool⟩ := by
  have later := State.lined_step turn.lined stepped
  have gate := turn.gate_step stepped
  have ranked := turn.ranked_step stepped served
  have order := turn.order_step stepped ordered served
  have admitted := turn.admitted_step stepped served
  have arrived (a : Nat) (after : Acquire κ) (w : WaiterId) (read : pool.acquires[a]? = some after)
      (parked : after.phase.waiter = some w) : a ∈ arrive s.arrivals pool := mem_arrive read parked
  rcases turn.arrive_cases stepped served with same | ⟨a, absent, grown, after, read, parked⟩
  -- Nobody new is parked, and the order is the one there was.
  · rw [same] at arrived ⊢
    exact ⟨later, gate, arrived, fun a arrived => turn.past_step stepped arrived, ranked, order,
      admitted⟩
  · -- The newcomer is parked behind everybody else.
    rw [grown] at arrived ⊢
    have phase := Phase.waiter_eq_some.mp parked
    refine ⟨later, gate, arrived, fun b arrived => ?_, ?_, ?_, fun b arrived => ?_⟩
    · rcases List.mem_append.mp arrived with earlier | new
      · exact turn.past_step stepped earlier
      · obtain rfl := List.mem_singleton.mp new
        refine ⟨(List.getElem?_eq_some_iff.mp read).1, fun record there => ?_⟩
        cases read.symm.trans there
        rw [phase]
        rfl
    · refine List.pairwise_append.mpr ⟨ranked, by simp, fun first earlier b new => ?_⟩
      obtain rfl := List.mem_singleton.mp new
      intro acquire there other there' w parked' v parked''
      cases read.symm.trans there'
      obtain rfl := Option.some.inj (parked.symm.trans parked'')
      exact turn.lined.waiting.known acquire
        (List.mem_of_getElem? (turn.still_parked stepped served earlier there parked')) w parked'
    · refine List.pairwise_append.mpr ⟨order, by simp, fun first arrived b new granted => ?_⟩
      obtain rfl := List.mem_singleton.mp new
      obtain ⟨record, there, granted⟩ := Option.any_eq_true _ _ |>.mp granted
      cases read.symm.trans there
      simp [phase] at granted
    · rcases List.mem_append.mp arrived with earlier | new
      · exact admitted b earlier
      · obtain rfl := List.mem_singleton.mp new
        intro record there
        cases read.symm.trans there
        rw [phase]
        simp

end Advance

/--
In every run in which woken calls resume in the order they were woken in, calls that have parked are
granted slots in the order in which they first parked, and never turned away, as long as each woken
call finds a slot.
-/
theorem firstServed_of_served (options : PoolOptions) (actions : List (Action κ τ))
    (ordered : Runs.Guarded (step options) (fun s action => s.pool.InOrder action)
      (init options) actions)
    (served : Runs.Guarded (step options) (fun s action => s.pool.Served options action)
      (init options) actions) :
    Runs.Throughout (step options) FirstServed (init options) actions := by
  -- The steps of the pool are those of the observed run.
  have kept := (ordered.both served).throughout (InTurn options)
    (fun s action next turn ⟨ordered, served⟩ stepped => by
      obtain ⟨pool, moved, rfl⟩ := Option.map_eq_some_iff.mp stepped
      exact inTurn_step turn moved ordered served) (inTurn_init options)
  exact kept.mono fun s turn => turn.served

/-- Two calls park, and are granted the slots of two resources in the order they came in. -/
theorem firstServed_of_served_backlog :
    let options : PoolOptions := { max := 2 }
    let create (a : Nat) : List (Action Nat Nat) :=
      [.acquire a, .obtain a, .create a .threw, .factoryCalled a, .factorySettled a (some a),
        .execSettled a (some a), .deliver a]
    Runs.Throughout (step options) FirstServed (init options)
      (create 0 ++ create 1 ++ [.acquire 8, .obtain 2, .acquire 9, .obtain 3, .releaseHandle 1,
        .releaseHandle 0, .resume 2, .resume 3]) :=
  -- Both slots are freed while two calls wait, and they resume in turn.
  firstServed_of_served _ _ (by decide) (by decide)

/-- A newcomer takes the slot a parked call was woken for, which parks again behind a later one. -/
theorem firstServed_overtaken :
    let options : PoolOptions := { max := 1 }
    let overtaken : List (Action Nat Nat) :=
      [.acquire 7, .obtain 0, .create 0 .threw, .factoryCalled 0, .factorySettled 0 (some 70),
        .execSettled 0 (some 70), .deliver 0, .acquire 8, .obtain 1, .acquire 9, .obtain 2,
        .acquire 10, .releaseHandle 0, .obtain 3, .resume 1, .create 3 .threw, .factoryCalled 1,
        .factorySettled 1 (some 100), .execSettled 1 (some 100), .deliver 3, .releaseHandle 1,
        .resume 2]
    Runs.Guarded (step options) (fun s action => s.pool.InOrder action) (init options) overtaken ∧
      ¬ Runs.Throughout (step options) FirstServed (init options) overtaken := by
  -- Call 3 takes the slot of 8, whose call parks again and is behind that of 9.
  decide

end Arrivals

end RefPool
