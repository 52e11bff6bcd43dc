import RefPool.Model.WithResource
import RefPool.Proofs.Borrowing
import RefPool.Proofs.Progress
import RefPool.Proofs.UseAfterDispose

/-! A function within `withResource` has a resource that is in use, and gives it back when done. -/

namespace RefPool

namespace State

variable {κ τ : Type} [DecidableEq κ] {options : PoolOptions} {s next : State κ τ}
  {action : Action κ τ} {a : AcquireId} {h : HandleId}

/-! ### Whom a handle was given to -/

/-- A handle was given to a call of `acquire`, and its entry is of the key of the call. -/
def HandedTo (s : State κ τ) (h : HandleId) (a : AcquireId) : Prop :=
  ∃ acquire handle entry, s.acquires[a]? = some acquire ∧ acquire.phase = .fulfilled h ∧
    s.handles[h]? = some handle ∧ s.heap[handle.entry]? = some entry ∧ entry.key = acquire.key

/-- Every handle was given to a call of the key of its entry. -/
def Handed (s : State κ τ) : Prop := ∀ h < s.handles.length, ∃ a, s.HandedTo h a

/-- What was given stays given. -/
theorem HandedTo.step (handed : s.HandedTo h a) (core : Core s)
    (stepped : s.step options action = some next) : next.HandedTo h a := by
  obtain ⟨acquire, handle, entry, called, phase, issued, found, key⟩ := handed
  have effect := step_effect stepped
  obtain ⟨handle', issued', same, -⟩ := effect.handle_kept core issued
  obtain ⟨entry', found', follows⟩ := (effect.grows core.store).entry handle.entry entry found
  -- A call that has settled is not touched any more.
  obtain ⟨acquire', called', rfl | goes⟩ := call_goes core stepped called
  · exact ⟨acquire', handle', entry', called', phase, issued', same ▸ found',
      follows.key.trans key⟩
  · have unsettled := goes.unsettled
    rw [phase] at unsettled
    cases unsettled

/-- A step issues no handle, or gives a new one to a call. -/
theorem handed_of_step (core : Core s) (stepped : s.step options action = some next) :
    next.handles.length = s.handles.length ∨
      (next.handles.length = s.handles.length + 1 ∧ ∃ a, next.HandedTo s.handles.length a) := by
  have wf := core.store
  have same (handles : next.handles = s.handles) : next.handles.length = s.handles.length :=
    congrArg List.length handles
  -- The new handle is the last one, and its entry was there before.
  have gave {a : AcquireId} {e : EntryId} {entry : Entry κ τ} (acquire : Acquire κ)
      (found : s.heap[e]? = some entry) (key : entry.key = acquire.key)
      (called : next.acquires[a]? = some acquire)
      (phase : acquire.phase = .fulfilled s.handles.length)
      (heap : next.heap = (s.toStore.checkout e).heap)
      (handles : next.handles = s.handles ++ [{ entry := e, released := false }]) :
      next.handles.length = s.handles.length + 1 ∧ ∃ a, next.HandedTo s.handles.length a := by
    rw [Store.checkout_heap] at heap
    have more : next.handles.length = s.handles.length + 1 := by
      rw [handles]
      exact List.length_append
    have newest : next.handles[s.handles.length]? = some { entry := e, released := false } := by
      rw [handles, List.getElem?_concat_length]
    have present := heap ▸ Arena.getElem?_modify_self _ found
    exact ⟨more, a, acquire, _, _, called, phase, newest, present, key⟩
  cases step_effect stepped with
  -- The key is live and held, and the call fulfils at once.
  | shared key e entry bound found =>
    have made : ((s.acquires ++ [(⟨key, none, .queued none⟩ : Acquire κ)]).modify
        s.acquires.length fun acquire => { acquire with phase := .fulfilled s.handles.length })[
        s.acquires.length]? = some ⟨key, none, .fulfilled s.handles.length⟩ := by
      rw [shared_acquires, List.getElem?_concat_length]
    exact .inr (gave ⟨key, none, .fulfilled s.handles.length⟩ found (wf.live_at bound found).key
      made rfl rfl rfl)
  | delivered a acquire e called phase =>
    obtain ⟨entry, found, key⟩ := core.fits called phase
    exact .inr (gave { acquire with phase := .fulfilled s.handles.length } found key
      (Arena.getElem?_modify_self _ called) rfl rfl rfl)
  -- All other steps leave the list of handles as long as it was.
  | released h handle next found holding effect =>
    refine .inl ?_
    rw [effect.sameCalls.handles]
    exact List.length_modify _ _ _
  | releasedKey key e next bound effect => exact .inl (same effect.sameCalls.handles)
  | drain => exact .inl (same (sameCalls_drain wf).handles)
  | stop => exact .inl (same (sameCalls_drain (s := s.setClosed.stopTimers) wf).handles)
  | sweep => exact .inl (same (sameCalls_sweep wf).handles)
  | missed a acquire after next called phase turn absent effect =>
    exact .inl (same effect.acts.handles)
  | discarded a acquire live next called phase effect => exact .inl (same effect.acts.handles)
  | resumed a acquire w waiter next called phase found woken effect =>
    exact .inl (same effect.acts.handles)
  | queued | releasedAgain | releasedNone | start | gcKeyState | emitStats | timeout | clock
  | validating | returned | abandoned | breakerless | creating | failed | drained | unvalidated
  | passed | refuted | factoryCalled | factorySettled | execRejected | execLate | inserted
  | disposeSettled | lateDisposeSettled | breakerChanged => exact .inl rfl

omit [DecidableEq κ] in
/-- A new pool has given nothing. -/
theorem handed_init (options : PoolOptions) : Handed (init options : State κ τ) := by
  -- There are no handles.
  simp [Handed, init]

/-- Every step leaves every handle with the call it was given to. -/
theorem Handed.step (handed : s.Handed) (core : Core s)
    (stepped : s.step options action = some next) : next.Handed := by
  intro h inside
  have old (older : h < s.handles.length) : ∃ a, next.HandedTo h a := by
    obtain ⟨a, given⟩ := handed h older
    exact ⟨a, given.step core stepped⟩
  -- A handle was there before, or it is the one that this step has issued.
  rcases handed_of_step core stepped with same | ⟨more, a, given⟩
  · exact old (same ▸ inside)
  · rcases Nat.lt_or_eq_of_le (Nat.le_of_lt_succ (more ▸ inside)) with older | rfl
    · exact old older
    · exact ⟨a, given⟩

omit [DecidableEq κ] in
/-- The call that a handle was given to has settled with it. -/
theorem HandedTo.settles (handed : s.HandedTo h a) : s.SettlesWith a (.ok h) := by
  -- The phase of the call is that it has settled with the handle.
  obtain ⟨acquire, handle, entry, called, phase, -⟩ := handed
  exact ⟨acquire, called, by rw [phase]; rfl⟩

omit [DecidableEq κ] in
/-- What a call settled with is a handle on an entry of its key. -/
theorem Handed.of_settles (handed : s.Handed) (issues : IssuedOnce s)
    (given : s.SettlesWith a (.ok h)) : s.HandedTo h a := by
  -- The handle was given to one call, and so to this one.
  obtain ⟨b, other⟩ := handed h (issues.issued a h given)
  obtain rfl := issues.once b a h other.settles given
  exact other

/-! ### Handles on entries in use -/

/-- No handle is out on an entry that is disposed of, for reasons that every step keeps. -/
structure Holding (s : State κ τ) : Prop where
  core : Core s
  counted : Counted (· = ·) s.heap s.handles
  ready : Ready Phase.unclaimed s.heap s.acquires
  safe : s.NoUseAfterDispose

/-- A new pool has no handles. -/
theorem holding_init (options : PoolOptions) :
    Holding (init options : State κ τ) where
  -- There are neither handles nor calls.
  core := core_init options
  counted := counted_init options
  ready := by simp [Ready, init]
  safe := by simp [NoUseAfterDispose, init]

/-- Undisturbed steps keep the handles on entries that are not disposed of. -/
theorem Holding.step (holding : s.Holding)
    (undisturbed : s.HandlesOnly action ∧ s.Undisturbed action)
    (stepped : s.step options action = some next) : next.Holding := by
  -- The counts, the claims and the safety are kept together, as each relies on the others.
  obtain ⟨core, counted, ready, safe⟩ := holding
  obtain ⟨handles, alone⟩ := undisturbed
  have effect := step_effect stepped
  exact ⟨core_step core stepped, effect.counted comparison_eq core (.inl handles) counted,
    effect.readyUnclaimed core handles alone ready,
    effect.noUseAfterDispose core counted handles ready safe⟩

end State

/-- The handle that a call of `withResource` came to have. -/
def WithResourcePhase.handle {τ ρ : Type} : WithResourcePhase τ ρ → Option HandleId
  | .running h _ | .settled h _ => some h
  | .acquiring | .rejected _ => none

namespace RefPoolService

variable {κ τ ρ : Type} [DecidableEq κ] {options : PoolOptions} {s next : RefPoolService κ τ ρ}
  {action : ServiceAction κ τ ρ} {call : WithResource κ τ ρ}

/-- What an action has the pool do. -/
def poolAction (s : RefPoolService κ τ ρ) : ServiceAction κ τ ρ → Option (Action κ τ)
  | .pool action => some action
  | .withResource key => some (.acquire key)
  | .acquired _ => none
  | .settled i _ => (s.calls[i]?).bind fun call => call.phase.handle.map Action.releaseHandle

/-- The outcomes of a step of the service. -/
inductive Effect (options : PoolOptions) (s : RefPoolService κ τ ρ) :
    ServiceAction κ τ ρ → RefPoolService κ τ ρ → Prop
  /-- The pool moves on by itself or through others. -/
  | pool (action : Action κ τ) (pool : State κ τ)
      (free : ∀ h, action = .releaseHandle h → s.owns h = false)
      (stepped : s.pool.step options action = some pool) :
      Effect options s (.pool action) { s with pool }
  /-- `withResource` calls `acquire`. -/
  | asked (key : κ) (pool : State κ τ)
      (stepped : s.pool.step options (.acquire key) = some pool) :
      Effect options s (.withResource key)
        { pool, calls := s.calls ++ [⟨key, s.pool.acquires.length, .acquiring⟩] }
  /-- The call of `acquire` rejected. -/
  | rejected (i : Nat) (call : WithResource κ τ ρ) (error : PoolError)
      (found : s.calls[i]? = some call) (phase : call.phase = .acquiring)
      (failed : s.pool.SettlesWith call.acquire (.error error)) :
      Effect options s (.acquired i) (s.setPhase i (.rejected error))
  /-- `fn` is called with the resource of the handle. -/
  | entered (i : Nat) (call : WithResource κ τ ρ) (h : HandleId) (handle : Handle)
      (entry : Entry κ τ) (found : s.calls[i]? = some call) (phase : call.phase = .acquiring)
      (given : s.pool.SettlesWith call.acquire (.ok h))
      (issued : s.pool.handles[h]? = some handle)
      (present : s.pool.heap[handle.entry]? = some entry) :
      Effect options s (.acquired i) (s.setPhase i (.running h entry.resource))
  /-- `fn` is done, and the handle is released. -/
  | settled (i : Nat) (call : WithResource κ τ ρ) (h : HandleId) (resource : τ)
      (result : Option ρ) (pool : State κ τ) (found : s.calls[i]? = some call)
      (phase : call.phase = .running h resource)
      (stepped : s.pool.step options (.releaseHandle h) = some pool) :
      Effect options s (.settled i result)
        ({ s with pool : RefPoolService κ τ ρ }.setPhase i (.settled h result))

/-- Every step has one of the outcomes. -/
theorem step_effect (stepped : s.step options action = some next) :
    Effect options s action next := by
  -- Each action has its guards, which the constructors keep as what is known of the call.
  cases action with
  | pool action =>
    simp only [step, Option.ite_none_left_eq_some, Option.map_eq_some_iff] at stepped
    obtain ⟨free, pool, stepped, rfl⟩ := stepped
    refine .pool action pool (fun h same => ?_) stepped
    subst same
    simpa using free
  | withResource key =>
    cases stepped
    exact .asked key _ rfl
  | acquired i =>
    simp only [step, Option.bind_eq_some_iff] at stepped
    obtain ⟨call, found, stepped⟩ := stepped
    cases phase : call.phase with
    | acquiring =>
      simp only [phase, Option.bind_eq_some_iff] at stepped
      obtain ⟨acquire, called, outcome, settled, stepped⟩ := stepped
      cases outcome with
      | error error =>
        cases stepped
        exact .rejected i call error found phase ⟨acquire, called, settled⟩
      | ok h =>
        simp only [acquired, Option.bind_eq_some_iff, Option.map_eq_some_iff] at stepped
        obtain ⟨handle, issued, entry, present, rfl⟩ := stepped
        exact .entered i call h handle entry found phase ⟨acquire, called, settled⟩ issued present
    | running | settled | rejected => simp [phase] at stepped
  | settled i result =>
    simp only [step, Option.bind_eq_some_iff] at stepped
    obtain ⟨call, found, stepped⟩ := stepped
    cases phase : call.phase with
    | running h resource =>
      simp only [phase, Option.map_eq_some_iff] at stepped
      obtain ⟨handle, issued, rfl⟩ := stepped
      have released : s.pool.step options (.releaseHandle h) =
          some (s.pool.releaseHandle h handle) := by simp [State.step, issued]
      exact .settled i call h resource result _ found phase released
    | acquiring | settled | rejected => simp [phase] at stepped

/-! ### The calls of `withResource` -/

/-- What holds of a call of `withResource` in its phase. -/
def Stands (pool : State κ τ) (a : AcquireId) : WithResourcePhase τ ρ → Prop
  -- A handle that is on its way to the call has not been released.
  | .acquiring => ∀ h, pool.SettlesWith a (.ok h) → ¬ pool.Released h
  | .running h resource => pool.SettlesWith a (.ok h) ∧ ¬ pool.Released h ∧
      ∃ handle entry, pool.handles[h]? = some handle ∧ pool.heap[handle.entry]? = some entry ∧
        entry.resource = resource
  | .settled h _ => pool.SettlesWith a (.ok h) ∧ pool.Released h
  | .rejected error => pool.SettlesWith a (.error error)

/-- Every step of the pool that leaves the handle of a call alone leaves the call what it has. -/
theorem stands_step {pool after : State κ τ} {a : AcquireId} {phase : WithResourcePhase τ ρ}
    {action : Action κ τ} (stands : Stands pool a phase) (core : Core pool)
    (stepped : pool.step options action = some after)
    (alone : ∀ h, action = .releaseHandle h →
      (∀ resource, phase ≠ .running h resource) ∧
        (phase = .acquiring → ¬ pool.SettlesWith a (.ok h))) :
    Stands after a phase := by
  cases phase with
  | acquiring =>
    intro h given released
    -- The handle was given before it was released, or it is new.
    by_cases own : action = .releaseHandle h
    · rcases State.gave_of_step core stepped given with before | ⟨acting, -⟩
      · exact (alone h own).2 rfl before
      · rw [own] at acting
        cases acting
    · have before := State.released_of_step core stepped released own
      exact stands h (given.of_released core stepped before) before
  | running h resource =>
    obtain ⟨given, out, handle, entry, issued, found, same⟩ := stands
    obtain ⟨handle', issued', still, -⟩ := (State.step_effect stepped).handle_kept core issued
    obtain ⟨entry', found', follows⟩ :=
      ((State.step_effect stepped).grows core.store).entry handle.entry entry found
    refine ⟨given.step core stepped, fun released => out ?_, handle', entry', issued',
      still ▸ found', follows.resource.trans same⟩
    exact State.released_of_step core stepped released fun own => (alone h own).1 resource rfl
  | settled h result => exact ⟨stands.1.step core stepped, stands.2.step core stepped⟩
  | rejected error => exact stands.step core stepped

/-- What holds of the calls of `withResource` in every run. -/
structure Sound (s : RefPoolService κ τ ρ) : Prop where
  core : Core s.pool
  issues : s.pool.IssuedOnce
  handed : s.pool.Handed
  asked : ∀ (i : Nat) call, s.calls[i]? = some call →
    ∃ acquire, s.pool.acquires[call.acquire]? = some acquire ∧ acquire.key = call.key
  apart : ∀ (i j : Nat) call other, s.calls[i]? = some call → s.calls[j]? = some other →
    call.acquire = other.acquire → i = j
  stands : ∀ (i : Nat) call, s.calls[i]? = some call → Stands s.pool call.acquire call.phase

/-- A new service has no calls. -/
theorem sound_init (options : PoolOptions) : Sound (init options : RefPoolService κ τ ρ) where
  -- There are no calls to ask about.
  core := State.core_init options
  issues := State.issuedOnce_init options
  handed := State.handed_init options
  asked := by simp [init]
  apart := by simp [init]
  stands := by simp [init]

omit [DecidableEq κ] in
/-- A handle that no call owns is neither in use by a call nor on its way to one. -/
theorem not_owned {h : HandleId} (free : s.owns h = false) (inside : call ∈ s.calls) :
    (∀ resource, call.phase ≠ .running h resource) ∧
      (call.phase = .acquiring → ¬ s.pool.SettlesWith call.acquire (.ok h)) := by
  have unowned := List.any_eq_false.mp free call inside
  -- A call that runs owns its handle, and one that was given a handle owns it already.
  refine ⟨fun resource phase => ?_, fun phase => ?_⟩
  · simp [phase] at unowned
  · rintro ⟨acquire, called, settled⟩
    have fulfilled : acquire.phase = .fulfilled h := by
      cases reached : acquire.phase <;> simp_all [Phase.settlement]
    simp [phase, called, fulfilled] at unowned

/-- Two calls of `withResource` do not settle with one handle. -/
theorem Sound.call_unique (sound : Sound s) {i j : Nat} {call other : WithResource κ τ ρ}
    {h : HandleId} (found : s.calls[i]? = some call) (found' : s.calls[j]? = some other)
    (given : s.pool.SettlesWith call.acquire (.ok h))
    (given' : s.pool.SettlesWith other.acquire (.ok h)) : i = j :=
  -- Two calls have asked two acquires, and a handle is given once.
  sound.apart i j call other found found' (sound.issues.once _ _ h given given')

/-- The pool takes a step, or none. -/
def Moves (options : PoolOptions) (pool after : State κ τ) : Prop :=
  after = pool ∨ ∃ action : Action κ τ, pool.step options action = some after

/-- What `acquire` was called for by the calls there are stays, whatever the pool does. -/
theorem Sound.asked_after {pool : State κ τ} (sound : Sound s) (moves : Moves options s.pool pool)
    {i : Nat} (found : s.calls[i]? = some call) :
    ∃ acquire, pool.acquires[call.acquire]? = some acquire ∧ acquire.key = call.key := by
  obtain ⟨acquire, called, key⟩ := sound.asked i call found
  -- A step of the pool leaves a call of `acquire` in its place, with its key.
  rcases moves with rfl | ⟨action, stepped⟩
  · exact ⟨acquire, called, key⟩
  · obtain ⟨after, read, -⟩ := State.call_goes sound.core stepped called
    rcases State.call_of_step sound.core stepped read with ⟨before, called', same, -⟩ | ⟨new, -⟩
    · cases called.symm.trans called'
      exact ⟨after, read, same.trans key⟩
    · have inside := (List.getElem?_eq_some_iff.mp called).1
      omega

/-- The calls go on, or stand still, while the pool takes a step or none. -/
theorem Sound.keep {pool : State κ τ} {calls : List (WithResource κ τ ρ)} (sound : Sound s)
    (moves : Moves options s.pool pool)
    (back : ∀ (j : Nat) call, calls[j]? = some call →
      ∃ old, s.calls[j]? = some old ∧ old.acquire = call.acquire ∧ old.key = call.key)
    (stands : ∀ (j : Nat) call, calls[j]? = some call → Stands pool call.acquire call.phase) :
    Sound { pool, calls } where
  -- What concerns the pool alone is kept by its own step, if it made one.
  core := by
    rcases moves with rfl | ⟨action, stepped⟩
    · exact sound.core
    · exact State.core_step sound.core stepped
  issues := by
    rcases moves with rfl | ⟨action, stepped⟩
    · exact sound.issues
    · exact sound.issues.step sound.core stepped
  handed := by
    rcases moves with rfl | ⟨action, stepped⟩
    · exact sound.handed
    · exact sound.handed.step sound.core stepped
  -- What concerns the calls is read off the calls that they were before.
  asked := by
    intro j call read
    obtain ⟨old, before, same, key⟩ := back j call read
    obtain ⟨acquire, called, own⟩ := sound.asked_after moves before
    exact ⟨acquire, same ▸ called, own.trans key⟩
  apart := by
    intro j k call other read read' same
    obtain ⟨old, before, own, -⟩ := back j call read
    obtain ⟨old', before', own', -⟩ := back k other read'
    exact sound.apart j k old old' before before' (own.trans (same.trans own'.symm))
  stands := stands

omit [DecidableEq κ] in
/-- A call that goes on is the call that it was. -/
theorem back_setPhase {calls : List (WithResource κ τ ρ)} (i : Nat)
    (phase : WithResourcePhase τ ρ) (j : Nat) (call : WithResource κ τ ρ)
    (read : (calls.modify i fun call => { call with phase })[j]? = some call) :
    ∃ old, calls[j]? = some old ∧ old.acquire = call.acquire ∧ old.key = call.key := by
  -- Only the phase of a call is assigned.
  rcases Arena.getElem?_modify_cases read with ⟨rfl, old, before, rfl⟩ | ⟨-, before⟩
  · exact ⟨old, before, rfl, rfl⟩
  · exact ⟨call, before, rfl, rfl⟩

/-- A new call of `withResource` awaits a new call of `acquire`. -/
theorem sound_withResource {key : κ} {pool : State κ τ} (sound : Sound s)
    (stepped : s.pool.step options (.acquire key) = some pool) :
    Sound { pool, calls := s.calls ++ [⟨key, s.pool.acquires.length, .acquiring⟩] } := by
  have core := sound.core
  have older {j : Nat} {call : WithResource κ τ ρ} (found : s.calls[j]? = some call) :
      call.acquire ≠ s.pool.acquires.length := by
    obtain ⟨acquire, called, -⟩ := sound.asked j call found
    exact Nat.ne_of_lt (List.getElem?_eq_some_iff.mp called).1
  refine ⟨State.core_step core stepped, sound.issues.step core stepped,
    sound.handed.step core stepped, fun j call read => ?_, fun j k call other read read' same => ?_,
    fun j call read => ?_⟩
  · rcases Arena.getElem?_push_cases read with ⟨rfl, rfl⟩ | before
    · -- The step has made one call of `acquire`, for the key.
      have longer : pool.acquires.length = s.pool.acquires.length + 1 := by
        cases stepped
        exact State.acquires_length_acquire key
      have made : s.pool.acquires.length < pool.acquires.length := by omega
      have present := List.getElem?_eq_getElem made
      rcases State.call_of_step core stepped present with ⟨before, called, -⟩ | ⟨-, same, -⟩
      · exact absurd (List.getElem?_eq_some_iff.mp called).1 (Nat.lt_irrefl _)
      · exact ⟨_, present, (Action.acquire.inj same).symm⟩
    · exact sound.asked_after (.inr ⟨_, stepped⟩) before
  · rcases Arena.getElem?_push_cases read with ⟨rfl, rfl⟩ | before
    · rcases Arena.getElem?_push_cases read' with ⟨rfl, rfl⟩ | before'
      · rfl
      · exact absurd same.symm (older before')
    · rcases Arena.getElem?_push_cases read' with ⟨rfl, rfl⟩ | before'
      · exact absurd same (older before)
      · exact sound.apart j k call other before before' same
  · rcases Arena.getElem?_push_cases read with ⟨rfl, rfl⟩ | before
    · -- What the call may have been given at once has not been released by anybody.
      intro h given released
      have earlier := State.released_of_step core stepped released (by simp)
      obtain ⟨acquire, called, -⟩ := given.of_released core stepped earlier
      exact absurd (List.getElem?_eq_some_iff.mp called).1 (Nat.lt_irrefl _)
    · exact stands_step (sound.stands j call before) core stepped fun h own => by cases own

/-- Every step keeps what holds of the calls. -/
theorem sound_step (sound : Sound s) (stepped : s.step options action = some next) :
    Sound next := by
  have core := sound.core
  have still : Moves options s.pool s.pool := .inl rfl
  cases step_effect stepped with
  -- The pool moves on its own, and releases no handle that a call owns.
  | pool action pool free moved =>
    refine sound.keep (.inr ⟨action, moved⟩) (fun j call found => ⟨call, found, rfl, rfl⟩)
      fun i call found => stands_step (sound.stands i call found) core moved fun h own => ?_
    exact not_owned (free h own) (List.mem_of_getElem? found)
  | asked key pool moved => exact sound_withResource sound moved
  | rejected i call error found phase failed =>
    refine sound.keep still (back_setPhase i _) fun j other read => ?_
    rcases Arena.getElem?_modify_cases read with ⟨rfl, old, before, rfl⟩ | ⟨-, before⟩
    · cases found.symm.trans before
      exact failed
    · exact sound.stands j other before
  -- The function gets what the acquire handed over.
  | entered i call h handle entry found phase given issued present =>
    refine sound.keep still (back_setPhase i _) fun j other read => ?_
    rcases Arena.getElem?_modify_cases read with ⟨rfl, old, before, rfl⟩ | ⟨-, before⟩
    · cases found.symm.trans before
      have stands := sound.stands _ call found
      rw [phase] at stands
      exact ⟨given, stands h given, handle, entry, issued, present, rfl⟩
    · exact sound.stands j other before
  -- The handle is released whether the function fulfilled or rejected.
  | settled i call h resource result pool found phase moved =>
    have stands := sound.stands i call found
    rw [phase] at stands
    obtain ⟨given, -, handle, -, issued, -⟩ := stands
    refine sound.keep (.inr ⟨_, moved⟩) (back_setPhase i _) fun j other read => ?_
    rcases Arena.getElem?_modify_cases read with ⟨rfl, old, before, rfl⟩ | ⟨differ, before⟩
    · cases found.symm.trans before
      have released : s.pool.step options (.releaseHandle h) =
          some (s.pool.releaseHandle h handle) := by simp [State.step, issued]
      cases released.symm.trans moved
      exact ⟨given.step core moved, State.released_releaseHandle issued⟩
    · -- The handle of another call is another one.
      refine stands_step (sound.stands j other before) core moved fun h' own => ?_
      cases own
      refine ⟨fun resource' running => ?_, fun _ given' => ?_⟩
      · have stands' := sound.stands j other before
        rw [running] at stands'
        exact differ (sound.call_unique found before given stands'.1)
      · exact differ (sound.call_unique found before given given')

/-- The pool takes the step that the action has it take, or stands still. -/
theorem pool_of_step (stepped : s.step options action = some next) :
    next.pool = s.pool ∨
      ∃ own ∈ s.poolAction action, s.pool.step options own = some next.pool := by
  -- The calls that wait and the ones that are rejected leave the pool alone.
  cases step_effect stepped with
  | pool action pool free moved => exact .inr ⟨action, rfl, moved⟩
  | asked key pool moved => exact .inr ⟨.acquire key, rfl, moved⟩
  | rejected | entered => exact .inl rfl
  | settled i call h resource result pool found phase moved =>
    have own : s.poolAction (.settled i result) = some (.releaseHandle h) := by
      simp [poolAction, found, phase, WithResourcePhase.handle]
    exact .inr ⟨.releaseHandle h, own, moved⟩

/-! ### While a function runs -/

/-- What `withResource` promises to the functions that it calls. -/
structure Lends (s : RefPoolService κ τ ρ) : Prop where
  /-- The handle of a running function is out, on an entry that is held and not disposed of. -/
  running : ∀ call ∈ s.calls, ∀ h resource, call.phase = .running h resource →
    ∃ handle entry, s.pool.handles[h]? = some handle ∧ handle.released = false ∧
      s.pool.heap[handle.entry]? = some entry ∧ entry.key = call.key ∧
      entry.resource = resource ∧ entry.disposing = false ∧ 0 < entry.refCount
  /-- No two calls have had one handle. -/
  apart : ∀ (i j : Nat) call other h, s.calls[i]? = some call → s.calls[j]? = some other →
    call.phase.handle = some h → other.phase.handle = some h → i = j
  /-- Whatever the function came to, its handle has been released. -/
  returned : ∀ call ∈ s.calls, ∀ h result, call.phase = .settled h result → s.pool.Released h

/-- Nobody releases by key, and an entry on its way to a caller is left alone. -/
def Undisturbed (s : RefPoolService κ τ ρ) (action : ServiceAction κ τ ρ) : Prop :=
  ∀ own ∈ s.poolAction action, s.pool.HandlesOnly own ∧ s.pool.Undisturbed own

/-- Whether a step leaves entries on their way to callers alone can be checked. -/
instance (s : RefPoolService κ τ ρ) (action : ServiceAction κ τ ρ) :
    Decidable (s.Undisturbed action) := by
  unfold Undisturbed
  infer_instance

/-- What holds of a pool whose entries are left alone on their way to callers. -/
structure Lending (s : RefPoolService κ τ ρ) : Prop where
  sound : Sound s
  counted : Counted (· = ·) s.pool.heap s.pool.handles
  ready : Ready Phase.unclaimed s.pool.heap s.pool.acquires
  safe : s.pool.NoUseAfterDispose

/-- What holds of the pool keeps its handles on entries in use. -/
theorem Lending.holding (lending : Lending s) : s.pool.Holding :=
  -- These are the parts that the account of the calls carries along.
  ⟨lending.sound.core, lending.counted, lending.ready, lending.safe⟩

/-- An undisturbed step keeps what holds of the pool. -/
theorem lending_step (lending : Lending s) (undisturbed : s.Undisturbed action)
    (stepped : s.step options action = some next) : Lending next := by
  have sound := sound_step lending.sound stepped
  -- The pool is where it was, or it has made an undisturbed step.
  rcases pool_of_step stepped with same | ⟨own, mine, moved⟩
  · exact ⟨sound, same ▸ lending.counted, same ▸ lending.ready, same ▸ lending.safe⟩
  · obtain ⟨-, counted, ready, safe⟩ := lending.holding.step (undisturbed own mine) moved
    exact ⟨sound, counted, ready, safe⟩

/-- The handle that a call has had is the one that its call of `acquire` settled with. -/
theorem Sound.settles (sound : Sound s) {i : Nat} {h : HandleId}
    (found : s.calls[i]? = some call) (had : call.phase.handle = some h) :
    s.pool.SettlesWith call.acquire (.ok h) := by
  have stands := sound.stands i call found
  -- Only a call that runs or has run had a handle.
  cases phase : call.phase with
  | running h' resource | settled h' result =>
    rw [phase] at stands had
    cases had
    exact stands.1
  | acquiring | rejected =>
    rw [phase] at had
    cases had

/-- What holds of the pool gives the calls what they are promised. -/
theorem Lending.lends (lending : Lending s) : Lends s where
  running := by
    intro call inside h resource phase
    obtain ⟨i, found⟩ := List.mem_iff_getElem?.mp inside
    have sound := lending.sound
    have stands := sound.stands i call found
    rw [phase] at stands
    obtain ⟨given, out, handle, entry, issued, present, same⟩ := stands
    have unreleased : handle.released = false :=
      Bool.eq_false_iff.mpr fun released => out ⟨handle, issued, released⟩
    have fresh := lending.safe handle (List.mem_of_getElem? issued) unreleased entry present
    -- The handle was given to a call of `acquire` for the key.
    obtain ⟨acquire, handle', entry', called, -, issued', present', key⟩ :=
      sound.handed.of_settles sound.issues given
    cases issued.symm.trans issued'
    cases present.symm.trans present'
    obtain ⟨acquire', called', own⟩ := sound.asked i call found
    cases called.symm.trans called'
    -- The count of the entry is the number of handles that are out on it.
    have undisposed := (sound.core.store.sound _ entry present).undisposed fresh
    have count := lending.counted.counts _ entry present undisposed
    have one := State.outstanding_pos (List.mem_of_getElem? issued) unreleased
    exact ⟨handle, entry, issued, unreleased, present, key.trans own, same, fresh, by omega⟩
  apart := by
    intro i j call other h found found' had had'
    exact lending.sound.call_unique found found' (lending.sound.settles found had)
      (lending.sound.settles found' had')
  returned := by
    intro call inside h result phase
    obtain ⟨i, found⟩ := List.mem_iff_getElem?.mp inside
    have stands := lending.sound.stands i call found
    rw [phase] at stands
    exact stands.2

/--
While a function runs within `withResource` nobody disposes of its resource, and it has its handle
to itself, which is released as soon as it is done: in every run that leaves entries on their way to
callers alone, whoever else uses, drains or stops the pool.
-/
theorem lends_throughout (options : PoolOptions) (actions : List (ServiceAction κ τ ρ))
    (undisturbed : Runs.Guarded (step options) Undisturbed
      (init options : RefPoolService κ τ ρ) actions) :
    Runs.Throughout (step options) Lends (init options) actions := by
  have fresh : (init options : RefPoolService κ τ ρ).pool.Holding := State.holding_init options
  have begun : Lending (init options : RefPoolService κ τ ρ) :=
    ⟨sound_init options, fresh.counted, fresh.ready, fresh.safe⟩
  -- The invariant is carried along the undisturbed steps.
  have kept := undisturbed.throughout Lending
    (fun s action next lending alone stepped => lending_step lending alone stepped) begun
  exact kept.mono fun s lending => lending.lends

/-- Two calls share an entry, which outlives a drain until both of them are done. -/
theorem lends_throughout_drained :
    let options : PoolOptions := { max := 1 }
    let actions : List (ServiceAction Nat Nat Nat) :=
      [.withResource 7, .pool (.obtain 0), .pool (.create 0 .threw), .pool (.factoryCalled 0),
        .pool (.factorySettled 0 (some 70)), .pool (.execSettled 0 (some 70)),
        .pool (.deliver 0), .acquired 0, .withResource 7, .acquired 1, .pool .drain,
        .settled 0 (some 1), .settled 1 none, .pool (.disposeSettled 0), .pool (.drained 0)]
    (Runs.run (step options) (init options) actions).isSome = true ∧
      Runs.Throughout (step options) Lends (init options) actions := by
  intro options actions
  -- Two functions share a resource, and the drain waits for both of them.
  have ran : (Runs.run (step options) (init options) actions).isSome = true := by decide
  exact ⟨ran, lends_throughout options actions (by decide +revert)⟩

/-! ### When everything is done -/

/-- The pool is used through `withResource` alone, and is neither drained nor refused a resource. -/
def Sole : ServiceAction κ τ ρ → Prop
  | .pool (.acquire _) | .pool (.release _) | .pool (.releaseHandle _) => False
  | .pool action => action.Calm
  | .withResource _ | .acquired _ | .settled _ _ => True

/-- Whether a step is a use through `withResource` can be checked. -/
instance (action : ServiceAction κ τ ρ) : Decidable (Sole action) := by
  unfold Sole
  split <;> infer_instance

/-- Nothing is left to run in the pool, or in the calls on it. -/
def Quiescent (options : PoolOptions) (s : RefPoolService κ τ ρ) : Prop :=
  State.Quiescent options s.pool ∧ ∀ i, s.step options (.acquired i) = none

/-- Once the functions are done every call is over, and no entry is held. -/
structure Finished (s : RefPoolService κ τ ρ) : Prop where
  ended : ∀ call ∈ s.calls, (∃ h result, call.phase = .settled h result) ∨
    ∃ error, call.phase = .rejected error
  unheld : ∀ entry ∈ s.pool.heap, entry.disposed = false → entry.refCount = 0

/-- A pool that waits for nothing, and whose functions are done, keeps no call waiting. -/
def Finishes (options : PoolOptions) (s : RefPoolService κ τ ρ) : Prop :=
  s.pool.Answered → (∀ call ∈ s.calls, ∀ h resource, call.phase ≠ .running h resource) →
    Quiescent options s → Finished s

/-- What holds of a pool that is used through `withResource` alone. -/
structure Solitary (options : PoolOptions) (s : RefPoolService κ τ ρ) : Prop where
  sound : Sound s
  steady : State.Steady options s.pool
  /-- Every call of `acquire` was made by `withResource`. -/
  mine : ∀ a < s.pool.acquires.length, ∃ call ∈ s.calls, call.acquire = a

omit [DecidableEq κ] in
/-- A sole use has the pool take calm steps only. -/
theorem calm_of_sole (sole : Sole action) {own : Action κ τ} (mine : own ∈ s.poolAction action) :
    own.Calm := by
  -- What the service does to its pool is to acquire and to release.
  cases action with
  | pool action =>
    cases mine
    cases own <;> trivial
  | withResource key =>
    cases mine
    trivial
  | acquired => cases mine
  | settled i result =>
    obtain ⟨call, -, had⟩ := Option.bind_eq_some_iff.mp mine
    obtain ⟨h, -, rfl⟩ := Option.map_eq_some_iff.mp had
    trivial

/-- Only a call of `acquire` adds one. -/
theorem older_of_step (core : Core s.pool) {own : Action κ τ} {pool : State κ τ}
    (other : ∀ key, own ≠ .acquire key) (moved : s.pool.step options own = some pool) {a : Nat}
    (inside : a < pool.acquires.length) : a < s.pool.acquires.length := by
  -- Every other action leaves as many calls as there were.
  rcases State.call_of_step core moved (List.getElem?_eq_getElem inside) with
    ⟨before, called, -⟩ | ⟨-, same, -⟩
  · exact (List.getElem?_eq_some_iff.mp called).1
  · exact absurd same (other _)

omit [DecidableEq κ] in
/-- A call that goes on awaits, or awaited, the call of `acquire` that it did. -/
theorem mine_setPhase {calls : List (WithResource κ τ ρ)} {a : AcquireId} (i : Nat)
    (phase : WithResourcePhase τ ρ) (mine : ∃ call ∈ calls, call.acquire = a) :
    ∃ call ∈ calls.modify i fun call => { call with phase }, call.acquire = a := by
  obtain ⟨call, inside, own⟩ := mine
  -- A call of `withResource` keeps its call of `acquire` in every phase.
  obtain ⟨j, found⟩ := List.mem_iff_getElem?.mp inside
  have kept : ∃ after, (calls.modify i fun call => { call with phase })[j]? = some after ∧
      after.acquire = a := Arena.exists_getElem?_modify found (fun _ => own) fun _ => own
  obtain ⟨after, read, same⟩ := kept
  exact ⟨after, List.mem_of_getElem? read, same⟩

/-- A sole use keeps what holds of the service. -/
theorem solitary_step (solitary : Solitary options s) (sole : Sole action)
    (stepped : s.step options action = some next) : Solitary options next where
  sound := sound_step solitary.sound stepped
  steady := by
    rcases pool_of_step stepped with same | ⟨own, mine, moved⟩
    · exact same ▸ solitary.steady
    · exact State.steady_step solitary.steady (calm_of_sole sole mine) moved
  mine := by
    have core := solitary.sound.core
    intro a inside
    -- Only a call of `withResource` adds a call of `acquire`, which is its own.
    cases step_effect stepped with
    | pool own pool free moved =>
      refine solitary.mine a (older_of_step core (fun key same => ?_) moved inside)
      subst same
      exact sole
    | asked key pool moved =>
      cases moved
      have longer : a < (s.pool.acquire key).acquires.length := inside
      rw [State.acquires_length_acquire key] at longer
      rcases Nat.lt_or_eq_of_le (Nat.le_of_lt_succ longer) with older | rfl
      · obtain ⟨call, inside, own⟩ := solitary.mine a older
        exact ⟨call, List.mem_append_left _ inside, own⟩
      · exact ⟨_, List.mem_append_right _ (List.mem_singleton_self _), rfl⟩
    | rejected i call error | entered i call h handle entry =>
      exact mine_setPhase i _ (solitary.mine a inside)
    | settled i call h resource result pool found phase moved =>
      exact mine_setPhase i _ (solitary.mine a (older_of_step core (by simp) moved inside))

/-- A call of `acquire` that has settled lets the call of `withResource` that awaits it go on. -/
theorem Sound.goes_on (sound : Sound s) {i : Nat} (found : s.calls[i]? = some call)
    (phase : call.phase = .acquiring) {outcome : Except PoolError HandleId}
    (settles : s.pool.SettlesWith call.acquire outcome) :
    s.step options (.acquired i) ≠ none := by
  obtain ⟨acquire, called, settled⟩ := settles
  cases outcome with
  | error error => simp [step, found, phase, called, settled, acquired]
  | ok h =>
    -- The handle is there, and so is its entry.
    obtain ⟨-, handle, entry, -, -, issued, present, -⟩ :=
      sound.handed.of_settles sound.issues ⟨acquire, called, settled⟩
    simp [step, found, phase, called, settled, acquired, issued, present]

/-- Once the functions are done, and nothing goes on, no handle is out. -/
theorem Solitary.released (solitary : Solitary options s) (quiet : Quiescent options s)
    (done : ∀ call ∈ s.calls, ∀ h resource, call.phase ≠ .running h resource)
    {handle : Handle} (inside : handle ∈ s.pool.handles) : handle.released = true := by
  obtain ⟨h, issued⟩ := List.mem_iff_getElem?.mp inside
  have older := (List.getElem?_eq_some_iff.mp issued).1
  have sound := solitary.sound
  -- The handle was given to a call of `acquire` that some call of `withResource` made.
  obtain ⟨a, given⟩ := sound.handed h older
  have settles := given.settles
  obtain ⟨acquire, -, -, called, -⟩ := given
  obtain ⟨call, member, rfl⟩ := solitary.mine a (List.getElem?_eq_some_iff.mp called).1
  obtain ⟨i, found⟩ := List.mem_iff_getElem?.mp member
  have stands := sound.stands i call found
  cases phase : call.phase with
  | acquiring => exact absurd (quiet.2 i) (sound.goes_on found phase settles)
  | running h' resource => exact absurd phase (done call member h' resource)
  | settled h' result =>
    rw [phase] at stands
    cases settles.unique stands.1
    exact stands.2.released_eq_true issued
  | rejected error =>
    rw [phase] at stands
    cases settles.unique stands

/-- A pool that is used through `withResource` alone is idle once the functions are done. -/
theorem Solitary.finishes (solitary : Solitary options s) : Finishes options s := by
  intro answered done quiet
  have released : ∀ handle ∈ s.pool.handles, handle.released = true :=
    fun _ inside => solitary.released quiet done inside
  have rest : s.pool.AtRest := ⟨released, answered.settled, answered.called, answered.disposed⟩
  refine ⟨fun call inside => ?_, fun entry inside undisposed => ?_⟩
  · obtain ⟨i, found⟩ := List.mem_iff_getElem?.mp inside
    cases phase : call.phase with
    | settled h result => exact .inl ⟨h, result, rfl⟩
    | rejected error => exact .inr ⟨error, rfl⟩
    | running h resource => exact absurd phase (done call inside h resource)
    | acquiring =>
      -- Its call of `acquire` has settled, so that it would go on.
      exfalso
      obtain ⟨acquire, called, -⟩ := solitary.sound.asked i call found
      have ended := solitary.steady.serves.settled rest quiet.1 acquire
        (List.mem_of_getElem? called)
      have settles : ∃ outcome, s.pool.SettlesWith call.acquire outcome := by
        cases reached : acquire.phase with
        | fulfilled h => exact ⟨.ok h, acquire, called, by rw [reached]; rfl⟩
        | rejected error => exact ⟨.error error, acquire, called, by rw [reached]; rfl⟩
        | _ => rw [reached] at ended; cases ended
      obtain ⟨outcome, settles⟩ := settles
      exact absurd (quiet.2 i) (solitary.sound.goes_on found phase settles)
  · obtain ⟨e, found⟩ := List.mem_iff_getElem?.mp inside
    have out := solitary.steady.counted.counts e entry found undisposed
    have none_ : outstanding s.pool.handles e = 0 := by
      refine List.countP_eq_zero.mpr fun handle issued holding => ?_
      simp [released handle issued] at holding
    omega

/--
A pool that is used through `withResource` alone, that nobody drains and whose resources pass
validation neither loses a reference nor leaves a call waiting: whenever nothing is left to run and
no callback is outstanding, every call has settled with what its function came to, or with the error
of `acquire`, and every entry is idle.
-/
theorem finishes_throughout (options : PoolOptions) (actions : List (ServiceAction κ τ ρ))
    (sole : ∀ action ∈ actions, Sole action) :
    Runs.Throughout (step options) (Finishes options)
      (init options : RefPoolService κ τ ρ) actions := by
  have each : Runs.Guarded (step options) (fun _ action => Sole action)
      (init options : RefPoolService κ τ ρ) actions := Runs.guarded_of_forall sole
  have begun : Solitary options (init options : RefPoolService κ τ ρ) :=
    ⟨sound_init options, State.steady_init options, by simp [init, State.init]⟩
  -- Every step is one of the service, so the invariant is carried along the run.
  have kept := each.throughout (Solitary options)
    (fun s action next solitary sole stepped => solitary_step solitary sole stepped) begun
  exact kept.mono fun s solitary => solitary.finishes

/-- A call waits for the slot of another, whose function throws. -/
theorem finishes_throughout_threw :
    let options : PoolOptions := { max := 1 }
    let create (key a : Nat) : List (ServiceAction Nat Nat Nat) :=
      [.pool (.create a .threw), .pool (.factoryCalled a),
        .pool (.factorySettled a (some key)), .pool (.execSettled a (some key)),
        .pool (.deliver a), .acquired a]
    let actions : List (ServiceAction Nat Nat Nat) :=
      [.withResource 7, .pool (.obtain 0)] ++ create 7 0 ++ [.withResource 8, .pool (.obtain 1),
        .settled 0 none, .pool (.resume 1)] ++ create 8 1 ++ [.pool (.disposeSettled 0),
        .settled 1 (some 3)]
    (Runs.run (step options) (init options) actions).isSome = true ∧
      Runs.Throughout (step options) (Finishes options)
        (init options : RefPoolService Nat Nat Nat) actions := by
  intro options create actions
  -- The first function throws, and the second call gets the slot of the first.
  have ran : (Runs.run (step options) (init options) actions).isSome = true := by decide
  exact ⟨ran, finishes_throughout options actions (by decide)⟩

end RefPoolService

end RefPool
