import RefPool.Model.Warm
import RefPool.Proofs.Lifecycle
import RefPool.Proofs.References

/-! Whoever calls `acquire` gets a handle of its own, and can keep account of calls and handles. -/

namespace RefPool

/-- A call that has settled does not go on. -/
theorem Phase.Goes.unsettled {before after : Phase} (goes : Goes before after) :
    before.settlement = none := by
  -- Only waiting calls, and those that are within their turn, go on.
  cases goes with
  | found _ _ early => cases before <;> first | rfl | cases early
  | granted _ waiting | parked _ _ waiting | refused _ _ waiting =>
    cases before <;> first | rfl | cases waiting
  | examined | refuted | creating | breakerless | inserted | failed | late | closed | fulfilled
  | rejected => rfl

namespace State

variable {κ τ : Type} [DecidableEq κ] {options : PoolOptions} {s next : State κ τ}
  {action : Action κ τ} {a b : AcquireId} {h : HandleId}

/-- A call of `acquire` has settled, with a handle or with an error. -/
def SettlesWith (s : State κ τ) (a : AcquireId) (outcome : Except PoolError HandleId) : Prop :=
  ∃ acquire, s.acquires[a]? = some acquire ∧ acquire.phase.settlement = some outcome

omit [DecidableEq κ] in
/-- A call settles once. -/
theorem SettlesWith.unique {outcome other : Except PoolError HandleId}
    (left : s.SettlesWith a outcome) (right : s.SettlesWith a other) : outcome = other := by
  -- Both read the same record of the call.
  obtain ⟨acquire, called, same⟩ := left
  obtain ⟨acquire', called', same'⟩ := right
  cases called.symm.trans called'
  exact Option.some.inj (same.symm.trans same')

/-- What a call has settled with it has settled with for good. -/
theorem SettlesWith.step {outcome : Except PoolError HandleId} (settles : s.SettlesWith a outcome)
    (core : Core s) (stepped : s.step options action = some next) : next.SettlesWith a outcome := by
  -- A call that has settled goes no further.
  obtain ⟨acquire, called, settled⟩ := settles
  obtain ⟨after, read, same | goes⟩ := call_goes core stepped called
  · exact ⟨after, read, same ▸ settled⟩
  · rw [goes.unsettled] at settled
    cases settled

/-- A call that has its entry goes on by the delivery of the handle, and by no other step. -/
theorem deliver_of_returned (core : Core s) (stepped : s.step options action = some next)
    (own : s.actor action = some a) {acquire : Acquire κ} (called : s.acquires[a]? = some acquire)
    {e : EntryId} (phase : acquire.phase = .returned e) : action = .deliver a := by
  -- The steps of calls ask for the phase that they go on from.
  have inside : a < s.acquires.length := (List.getElem?_eq_some_iff.mp called).1
  cases action with
  | acquire key =>
    cases own
    exact absurd inside (Nat.lt_irrefl _)
  | deliver b => cases own; rfl
  | obtain b | discarded b | resume b | create b | validated b | lateDisposeSettled b =>
    cases own
    simp [step, called, phase] at stepped
  | execSettled x resource =>
    obtain ⟨exec, found, rfl⟩ := Option.map_eq_some_iff.mp own
    have awaited : exec.outcome = .pending → False := fun outstanding => by
      obtain ⟨other, called', -, creating⟩ := core.execs.awaited x exec found outstanding
      cases called.symm.trans called'
      cases phase.symm.trans creating
    -- An exec that is still awaited belongs to a call that is creating.
    simp only [step, found, Option.bind_some] at stepped
    cases stepped
  | releaseHandle | release | drain | stop | start | sweep | gcKeyState | emitStats | timeout
  | clock | drained | factoryCalled | factorySettled | disposeSettled | breakerChanged => cases own

/-- A handle that a call was given is the newest one, or it was given to the call before. -/
theorem gave_of_step (core : Core s) (stepped : s.step options action = some next)
    (given : next.SettlesWith a (.ok h)) : s.SettlesWith a (.ok h) ∨
      (s.actor action = some a ∧ h = s.handles.length ∧
        next.handles.length = s.handles.length + 1) := by
  obtain ⟨after, read, settled⟩ := given
  have phase : after.phase = .fulfilled h := by
    cases reached : after.phase <;> simp_all [Phase.settlement]
  have issued (e : EntryId) :
      (s.handles ++ [({ entry := e, released := false } : Handle)]).length = s.handles.length + 1 :=
    List.length_append
  rcases call_of_step core stepped read with
    ⟨before, called, -, rfl | ⟨own, goes⟩⟩ | ⟨rfl, rfl, -⟩
  · exact .inl ⟨_, called, settled⟩
  · -- The call had its entry, and the handle on it is issued now.
    rw [phase] at goes
    generalize at_ : before.phase = earlier at goes
    cases goes with
    | fulfilled e =>
      obtain rfl := deliver_of_returned core stepped own called at_
      simp only [step, called, at_, Option.bind_some, Option.some.injEq] at stepped
      subst stepped
      have moved : (s.deliver a before (.ok e)).acquires[a]? =
          some { before with phase := .fulfilled s.handles.length } :=
        Arena.getElem?_modify_self _ called
      cases moved.symm.trans read
      cases phase
      exact .inr ⟨own, rfl, issued e⟩
  · -- The call took the fast path.
    cases step_effect stepped with
    | shared key e =>
      have pushed := shared_acquires s.acquires after.key (.fulfilled s.handles.length)
      have made : (s.acquires ++ [(⟨after.key, none, .fulfilled s.handles.length⟩ : Acquire κ)])[
          s.acquires.length]? = some after := by
        rw [← pushed]
        exact read
      simp only [List.getElem?_concat_length, Option.some.injEq] at made
      rw [← made] at phase
      cases phase
      exact .inr ⟨rfl, rfl, issued e⟩
    | queued key =>
      simp only [List.getElem?_concat_length, Option.some.injEq] at read
      rw [← read] at phase
      cases phase

/-- No handle is given to two calls. -/
structure IssuedOnce (s : State κ τ) : Prop where
  once : ∀ a b h, s.SettlesWith a (.ok h) → s.SettlesWith b (.ok h) → a = b
  issued : ∀ a h, s.SettlesWith a (.ok h) → h < s.handles.length

omit [DecidableEq κ] in
/-- No call of a new pool was given a handle. -/
theorem issuedOnce_init (options : PoolOptions) : IssuedOnce (init options : State κ τ) := by
  -- There are no calls.
  constructor <;> simp [SettlesWith, init]

/-- Every step gives a new handle, if any, to one call. -/
theorem IssuedOnce.step (issues : IssuedOnce s) (core : Core s)
    (stepped : s.step options action = some next) : IssuedOnce next where
  once := by
    intro a b h left right
    rcases gave_of_step core stepped left with before | ⟨own, rfl, -⟩
    · rcases gave_of_step core stepped right with before' | ⟨-, rfl, -⟩
      · exact issues.once a b h before before'
      · exact absurd (issues.issued a _ before) (Nat.lt_irrefl _)
    · rcases gave_of_step core stepped right with before' | ⟨own', -, -⟩
      · exact absurd (issues.issued b _ before') (Nat.lt_irrefl _)
      · exact Option.some.inj (own.symm.trans own')
  issued := by
    intro a h given
    rcases gave_of_step core stepped given with before | ⟨-, rfl, more⟩
    · -- Handles are never taken back.
      have inside := issues.issued a h before
      obtain ⟨after, present, -⟩ :=
        (step_effect stepped).handle_kept core (List.getElem?_eq_getElem inside)
      exact (List.getElem?_eq_some_iff.mp present).1
    · exact more ▸ Nat.lt_succ_self _

/-- The `release` of a handle was called. -/
def Released (s : State κ τ) (h : HandleId) : Prop :=
  ∃ handle, s.handles[h]? = some handle ∧ handle.released = true

omit [DecidableEq κ] in
/-- The flag of a released handle is up. -/
theorem Released.released_eq_true {handle : Handle} (released : s.Released h)
    (issued : s.handles[h]? = some handle) : handle.released = true := by
  -- Both read the same record of the handle.
  obtain ⟨other, issued', flag⟩ := released
  cases issued.symm.trans issued'
  exact flag

/-- A released handle stays released. -/
theorem Released.step (released : s.Released h) (core : Core s)
    (stepped : s.step options action = some next) : next.Released h := by
  -- No step takes the flag of a handle down.
  obtain ⟨handle, issued, flag⟩ := released
  obtain ⟨after, present, -, still⟩ := (step_effect stepped).handle_kept core issued
  exact ⟨after, present, still flag⟩

/-- A handle that was released for the first time was released by its own `release`. -/
theorem released_of_step (core : Core s) (stepped : s.step options action = some next)
    (released : next.Released h) (other : action ≠ .releaseHandle h) : s.Released h := by
  obtain ⟨handle, present, flag⟩ := released
  have same (handles : next.handles = s.handles) : s.Released h :=
    ⟨handle, handles ▸ present, flag⟩
  cases (step_effect stepped).references core with
  | kept _ _ _ handles | inserted _ _ _ _ _ _ handles => exact same handles
  | issued _ _ e entry found heap handles =>
    -- A handle is not released as it is issued.
    rw [handles] at present
    rcases Arena.getElem?_push_cases present with ⟨-, rfl⟩ | before
    · cases flag
    · exact ⟨handle, before, flag⟩
  | released h' _ _ found holding effect =>
    rw [effect.sameCalls.handles] at present
    rcases Arena.getElem?_modify_cases present with ⟨rfl, -, -, -⟩ | ⟨-, before⟩
    · exact absurd rfl other
    · exact ⟨handle, before, flag⟩
  | releasedKey _ _ _ effect => exact same effect.sameCalls.handles

/-- A handle that others have not released is not released by the time it is given. -/
theorem SettlesWith.of_released (core : Core s) (stepped : s.step options action = some next)
    (given : next.SettlesWith a (.ok h)) (released : s.Released h) : s.SettlesWith a (.ok h) := by
  -- A handle that a step gives is new, and so not released before it.
  rcases gave_of_step core stepped given with before | ⟨-, rfl, -⟩
  · exact before
  · obtain ⟨handle, present, -⟩ := released
    rw [List.getElem?_eq_none (Nat.le_refl _)] at present
    cases present

/-- A call of `acquire` is one more call. -/
theorem acquires_length_acquire (key : κ) :
    (s.acquire key).acquires.length = s.acquires.length + 1 := by
  -- Both the fast path and the queue add one record.
  have effect : Effect { max := 0 } s (.acquire key) (s.acquire key) := acquire_effect s key
  generalize s.acquire key = next at effect ⊢
  cases effect with
  | shared => exact (List.length_modify _ _ _).trans List.length_append
  | queued => exact List.length_append

/-- The account of a party: the calls it made, those it still awaits, and the handles it got. -/
structure Account (s : State κ τ) (asked awaited : List AcquireId) (handles : List HandleId) :
    Prop where
  called : ∀ a ∈ asked, a < s.acquires.length
  waiting : ∀ a ∈ awaited, a ∈ asked
  apart : awaited.Nodup
  /-- Every handle was given to a call that is not awaited any more. -/
  given : ∀ h ∈ handles, ∃ a ∈ asked, a ∉ awaited ∧ s.SettlesWith a (.ok h)
  once : handles.Nodup
  /-- A call that is not awaited any more failed, or its handle is among the handles. -/
  settled : ∀ a ∈ asked, a ∉ awaited →
    (∃ error, s.SettlesWith a (.error error)) ∨ ∃ h ∈ handles, s.SettlesWith a (.ok h)

namespace Account

variable {asked awaited : List AcquireId} {handles : List HandleId}

omit [DecidableEq κ] in
/-- Whoever has called nothing has nothing. -/
theorem nil (s : State κ τ) : s.Account [] [] [] := by
  -- There is nothing to account for.
  constructor <;> simp

omit [DecidableEq κ] in
/-- The order of calls and handles does not matter. -/
theorem perm {awaited' : List AcquireId} {handles' : List HandleId}
    (account : s.Account asked awaited handles) (calls : awaited.Perm awaited')
    (same : handles.Perm handles') : s.Account asked awaited' handles' where
  -- Lists that differ in their order alone have the same members.
  called := account.called
  waiting := fun a inside => account.waiting a (calls.mem_iff.mpr inside)
  apart := calls.nodup account.apart
  given := by
    intro h inside
    obtain ⟨a, mine, done, given⟩ := account.given h (same.mem_iff.mpr inside)
    exact ⟨a, mine, fun waiting => done (calls.mem_iff.mpr waiting), given⟩
  once := same.nodup account.once
  settled := by
    intro a mine done
    rcases account.settled a mine fun waiting => done (calls.mem_iff.mp waiting) with
      failed | ⟨h, inside, given⟩
    · exact .inl failed
    · exact .inr ⟨h, same.mem_iff.mp inside, given⟩

/-- Whatever the pool does, the account stays right. -/
theorem step (account : s.Account asked awaited handles) (core : Core s)
    (stepped : s.step options action = some next) : next.Account asked awaited handles where
  -- No step takes a call away, nor what it has settled with.
  called := by
    intro a mine
    obtain ⟨after, read, -⟩ :=
      call_goes core stepped (List.getElem?_eq_getElem (account.called a mine))
    exact (List.getElem?_eq_some_iff.mp read).1
  waiting := account.waiting
  apart := account.apart
  given := by
    intro h inside
    obtain ⟨a, mine, done, given⟩ := account.given h inside
    exact ⟨a, mine, done, given.step core stepped⟩
  once := account.once
  settled := by
    intro a mine done
    rcases account.settled a mine done with ⟨error, failed⟩ | ⟨h, inside, given⟩
    · exact .inl ⟨error, failed.step core stepped⟩
    · exact .inr ⟨h, inside, given.step core stepped⟩

/-- A further call is awaited. -/
theorem ask (account : s.Account asked awaited handles) (core : Core s) (key : κ) :
    (s.acquire key).Account (asked ++ [s.acquires.length]) (s.acquires.length :: awaited)
      handles := by
  -- A call of `acquire` reads no option.
  have stepped : s.step { max := 0 } (.acquire key) = some (s.acquire key) := rfl
  have after := account.step core stepped
  have longer := acquires_length_acquire (s := s) key
  have fresh (a : AcquireId) (mine : a ∈ asked) : a ≠ s.acquires.length :=
    Nat.ne_of_lt (account.called a mine)
  constructor
  · intro a inside
    rcases List.mem_append.mp inside with before | new
    · exact after.called a before
    · rw [List.mem_singleton.mp new, longer]
      exact Nat.lt_succ_self _
  · intro a inside
    rcases List.mem_cons.mp inside with rfl | before
    · exact List.mem_append_right _ (List.mem_singleton_self _)
    · exact List.mem_append_left _ (account.waiting a before)
  · exact List.nodup_cons.mpr
      ⟨fun waiting => fresh _ (account.waiting _ waiting) rfl, account.apart⟩
  · intro h inside
    obtain ⟨a, mine, done, given⟩ := after.given h inside
    refine ⟨a, List.mem_append_left _ mine, fun waiting => ?_, given⟩
    rcases List.mem_cons.mp waiting with rfl | before
    · exact fresh _ mine rfl
    · exact done before
  · exact account.once
  · intro a inside done
    simp only [List.mem_cons, not_or] at done
    rcases List.mem_append.mp inside with before | new
    · exact after.settled a before done.2
    · exact absurd (List.mem_singleton.mp new) done.1

omit [DecidableEq κ] in
/-- A call that is awaited no more has given its handle, which is a new one. -/
theorem give (account : s.Account asked (a :: awaited) handles) (issues : IssuedOnce s)
    (given : s.SettlesWith a (.ok h)) : s.Account asked awaited (h :: handles) := by
  obtain ⟨other, apart⟩ := List.nodup_cons.mp account.apart
  have mine : a ∈ asked := account.waiting a List.mem_cons_self
  constructor
  · exact account.called
  · exact fun b inside => account.waiting b (List.mem_cons_of_mem _ inside)
  · exact apart
  · intro h' inside
    rcases List.mem_cons.mp inside with rfl | before
    · exact ⟨a, mine, other, given⟩
    · obtain ⟨b, yours, done, given'⟩ := account.given h' before
      exact ⟨b, yours, fun waiting => done (List.mem_cons_of_mem _ waiting), given'⟩
  · refine List.nodup_cons.mpr ⟨fun before => ?_, account.once⟩
    -- The handle would have been given to a call that is not awaited.
    obtain ⟨b, -, done, given'⟩ := account.given h before
    exact done (issues.once a b h given given' ▸ List.mem_cons_self)
  · intro b yours done
    by_cases same : b = a
    · subst same
      exact .inr ⟨h, List.mem_cons_self, given⟩
    · rcases account.settled b yours (by simp [same, done]) with failed | ⟨h', inside, given'⟩
      · exact .inl failed
      · exact .inr ⟨h', List.mem_cons_of_mem _ inside, given'⟩

omit [DecidableEq κ] in
/-- A call that is awaited no more has failed. -/
theorem fail {error : PoolError} (account : s.Account asked (a :: awaited) handles)
    (failed : s.SettlesWith a (.error error)) : s.Account asked awaited handles := by
  -- The call leaves the list of those awaited, and the error stands for its outcome.
  obtain ⟨other, apart⟩ := List.nodup_cons.mp account.apart
  constructor
  · exact account.called
  · exact fun b inside => account.waiting b (List.mem_cons_of_mem _ inside)
  · exact apart
  · intro h inside
    obtain ⟨b, yours, done, given⟩ := account.given h inside
    exact ⟨b, yours, fun waiting => done (List.mem_cons_of_mem _ waiting), given⟩
  · exact account.once
  · intro b yours done
    by_cases same : b = a
    · subst same
      exact .inl ⟨error, failed⟩
    · exact account.settled b yours (by simp [same, done])

end Account

end State

end RefPool
