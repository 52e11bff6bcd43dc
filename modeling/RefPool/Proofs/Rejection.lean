import RefPool.Proofs.Flow
import RefPool.Proofs.Lifecycle
import RefPool.Proofs.Undrained

/-! An entry that failed validation is never handed out again, nor replaced before it is gone. -/

namespace RefPool

variable {κ τ : Type} [DecidableEq κ]

/-- A verdict of `validate`: the entry, and how many handles and execs there were by then. -/
structure Rejection where
  entry : EntryId
  handles : Nat
  execs : Nat

namespace State

variable {options : PoolOptions} {s next : State κ τ} {action : Action κ τ} {e : EntryId}

/-- What a step rejects: a falsy verdict is on the entry that its call examines. -/
def rejection (s : State κ τ) : Action κ τ → Option Rejection
  | .validated a (some false) => (s.acquires[a]?).bind fun acquire =>
      acquire.phase.examined.map fun live => ⟨live, s.handles.length, s.execs.length⟩
  | _ => none

/-- What a call wants after a step it wanted before, or it is on no way out, or it is new. -/
def Wants (s : State κ τ) (i : AcquireId) (e : EntryId) : Prop :=
  (∃ before, s.acquires[i]? = some before ∧ before.phase.claimed = some e) ∨
    Undisposed s.heap e ∨ s.heap.length ≤ e

omit [DecidableEq κ] in
/-- A call that moves on wants what its new phase is about, and the others want what they did. -/
theorem wants_move {a : AcquireId} {phase : Phase} {i : AcquireId} {after : Acquire κ}
    (read : (s.acquires.modify a fun acquire => { acquire with phase })[i]? = some after)
    (wanted : after.phase.claimed = some e)
    (fresh : phase.claimed = some e → i = a → s.Wants i e) : s.Wants i e := by
  -- Only the call at the address has moved.
  rcases Arena.getElem?_modify_cases read with ⟨rfl, old, before, rfl⟩ | ⟨-, before⟩
  · exact fresh wanted rfl
  · exact .inl ⟨after, before, wanted⟩

omit [DecidableEq κ] in
/-- A call that moves on to a phase about no entry wants none. -/
theorem wants_idle {a : AcquireId} {phase : Phase} {i : AcquireId} {after : Acquire κ}
    (read : (s.acquires.modify a fun acquire => { acquire with phase })[i]? = some after)
    (wanted : after.phase.claimed = some e) (idle : phase.claimed = none) : s.Wants i e :=
  -- It is the general law, for a phase that claims nothing.
  wants_move read wanted fun claimed _ => by simp [idle] at claimed

/-- A call in the reservation loop wants no entry. -/
theorem SlotEffect.wants {a i : AcquireId} {after : Acquire κ}
    (effect : SlotEffect options s a next) (read : next.acquires[i]? = some after)
    (wanted : after.phase.claimed = some e) : s.Wants i e := by
  -- All phases that a turn ends in claim nothing.
  cases effect with
  | unbounded | refused | reserved | evicted | exhausted | parked =>
    exact wants_idle read wanted rfl

/-- `obtain` from the orphan lookup on wants an orphan at most. -/
theorem MissEffect.wants {a i : AcquireId} {key : κ} {after : Acquire κ}
    (effect : MissEffect options s a key next) (wf : s.toStore.WellFormed)
    (read : next.acquires[i]? = some after) (wanted : after.phase.claimed = some e) :
    s.Wants i e := by
  -- What the call claims anew is an orphan that is still in use.
  cases effect with
  | resurrected orphan bound =>
    refine wants_move read wanted fun claimed _ => ?_
    obtain ⟨entry, found, promised⟩ := wf.orphaned key orphan bound
    cases claimed
    exact .inr (.inl ⟨entry, found, promised.undisposed⟩)
  | refused => exact wants_idle read wanted rfl
  | slot _ _ _ effect => exact effect.wants read wanted

/-- Whatever a call wants after a step was wanted by it before, or is not on its way out. -/
theorem Effect.wants {i : AcquireId} {after : Acquire κ} (core : Core s)
    (effect : Effect options s action next) (read : next.acquires[i]? = some after)
    (wanted : after.phase.claimed = some e) : s.Wants i e := by
  have wf := core.store
  have same (kept : next.acquires = s.acquires) : s.Wants i e :=
    .inl ⟨after, kept ▸ read, wanted⟩
  -- A live entry is not on its way out, and neither is an orphan.
  cases effect with
  | shared key e =>
    have pushed : (s.acquires ++ [⟨key, none, .fulfilled s.handles.length⟩])[i]? = some after := by
      rw [← shared_acquires]
      exact read
    rcases Arena.getElem?_push_cases pushed with ⟨-, rfl⟩ | before
    · cases wanted
    · exact .inl ⟨after, before, wanted⟩
  | queued key =>
    rcases Arena.getElem?_push_cases read with ⟨-, rfl⟩ | before
    · cases wanted
    · exact .inl ⟨after, before, wanted⟩
  | released h handle next found holding effect => exact same effect.sameCalls.acquires
  | releasedKey key e next bound effect => exact same effect.sameCalls.acquires
  | drain => exact same (sameCalls_drain wf).acquires
  | stop => exact same (sameCalls_drain (s := s.setClosed.stopTimers) wf).acquires
  | sweep => exact same (sameCalls_sweep wf).acquires
  | validating a acquire before live entry called phase turn bound found
  | returned a acquire before live entry called phase turn bound found =>
    refine wants_move read wanted fun claimed _ => ?_
    cases claimed
    exact .inr (.inl ⟨entry, found, (wf.live_at bound found).undisposed⟩)
  | missed a acquire before next called phase turn absent effect =>
    exact effect.wants wf read wanted
  | discarded a acquire live next called phase effect => exact effect.wants wf read wanted
  | resumed a acquire w waiter next called phase found woken effect =>
    exact effect.wants read wanted
  | passed a acquire live called phase =>
    refine wants_move read wanted fun claimed here => ?_
    cases claimed
    exact .inl ⟨acquire, here ▸ called, by rw [phase]; rfl⟩
  -- A fresh entry has an address of its own.
  | inserted x exec resource =>
    refine wants_move read wanted fun claimed _ => ?_
    cases claimed
    exact .inr (.inr (Nat.le_refl _))
  | abandoned | breakerless | creating | delivered | failed | unvalidated | refuted | execRejected
  | execLate | lateDisposeSettled => exact wants_idle read wanted rfl
  | releasedAgain | releasedNone | start | gcKeyState | emitStats | timeout | clock | drained
  | factoryCalled | factorySettled | disposeSettled | breakerChanged => exact same rfl

/-- A handle after a step is an older one, or is on an entry that a call wanted or that is live. -/
theorem Effect.handle {h : HandleId} {handle : Handle} (core : Core s)
    (effect : Effect options s action next) (read : next.handles[h]? = some handle) :
    (∃ before, s.handles[h]? = some before ∧ before.entry = handle.entry) ∨
      (h = s.handles.length ∧ (Undisposed s.heap handle.entry ∨
        ∃ acquire ∈ s.acquires, acquire.phase.claimed = some handle.entry)) := by
  have wf := core.store
  have same (kept : next.handles = s.handles) :
      (∃ before, s.handles[h]? = some before ∧ before.entry = handle.entry) ∨
        (h = s.handles.length ∧ (Undisposed s.heap handle.entry ∨
          ∃ acquire ∈ s.acquires, acquire.phase.claimed = some handle.entry)) :=
    .inl ⟨handle, kept ▸ read, rfl⟩
  -- Two steps issue a handle, and one marks a handle as released.
  cases effect with
  | shared key e entry bound found =>
    rcases Arena.getElem?_push_cases read with ⟨here, rfl⟩ | before
    · exact .inr ⟨here, .inl ⟨entry, found, (wf.live_at bound found).undisposed⟩⟩
    · exact .inl ⟨handle, before, rfl⟩
  | delivered a acquire e called phase =>
    rcases Arena.getElem?_push_cases read with ⟨here, rfl⟩ | before
    · exact .inr ⟨here, .inr ⟨acquire, List.mem_of_getElem? called, by rw [phase]; rfl⟩⟩
    · exact .inl ⟨handle, before, rfl⟩
  | released g other next found holding effect =>
    rw [effect.sameCalls.handles] at read
    rcases Arena.getElem?_modify_cases read with ⟨-, old, before, rfl⟩ | ⟨-, before⟩
    · exact .inl ⟨old, before, rfl⟩
    · exact .inl ⟨handle, before, rfl⟩
  | releasedKey key e next bound effect => exact same effect.sameCalls.handles
  | drain => exact same (sameCalls_drain wf).handles
  | stop => exact same (sameCalls_drain (s := s.setClosed.stopTimers) wf).handles
  | sweep => exact same (sameCalls_sweep wf).handles
  | missed a acquire before next called phase turn absent effect => exact same effect.acts.handles
  | discarded a acquire live next called phase effect => exact same effect.acts.handles
  | resumed a acquire w waiter next called phase found woken effect =>
    exact same effect.acts.handles
  | queued | releasedAgain | releasedNone | start | gcKeyState | emitStats | timeout | clock
  | validating | returned | abandoned | breakerless | creating | failed | drained | unvalidated
  | passed | refuted | factoryCalled | factorySettled | execRejected | execLate | inserted
  | disposeSettled | lateDisposeSettled | breakerChanged => exact same rfl

/-- A call that awaits a disposal goes on only once the disposal has ended. -/
theorem discarding_waits {a : AcquireId} {acquire : Acquire κ} {entry : Entry κ τ} (core : Core s)
    (stepped : s.step options action = some next) (called : s.acquires[a]? = some acquire)
    (phase : acquire.phase = .discarding e) (found : s.heap[e]? = some entry) :
    entry.disposed = true ∨ next.acquires[a]? = some acquire := by
  have effect := (step_effect stepped).calls core
  generalize next.acquires = acquires at effect
  cases effect with
  | same => exact .inr called
  | made => exact .inr (Arena.getElem?_push_of_some _ called)
  | moved action b other phase' own called' goes =>
    by_cases here : b = a
    · subst here
      left
      cases called.symm.trans called'
      -- Of the steps of the call, only one can be taken from where it is.
      cases action with
      | discarded c =>
        cases own
        simp only [step, called, phase, waitResolved, found, Option.bind_some, Option.any_some,
          Option.ite_none_right_eq_some] at stepped
        exact stepped.1
      | obtain c | resume c | create c | deliver c | validated c | lateDisposeSettled c =>
        cases own
        simp [step, called, phase] at stepped
      | acquire key =>
        cases own
        simp at called
      | execSettled x answer =>
        obtain ⟨exec, read, rfl⟩ := Option.map_eq_some_iff.mp own
        cases outstanding : exec.outcome with
        | pending =>
          obtain ⟨record, present, -, creating⟩ := core.execs.awaited x exec read outstanding
          cases called.symm.trans present
          cases phase.symm.trans creating
        | fulfilled | rejected => simp [step, read, outstanding] at stepped
      | _ => cases own
    · exact .inr (by rw [Arena.getElem?_modify_other _ _ here, called])

/-- A rejected entry is being disposed of, nobody wants it, and a call sees to its disposal. -/
structure Rejected (s : State κ τ) (r : Rejection) : Prop where
  awaited : ∃ entry, s.heap[r.entry]? = some entry ∧ entry.disposing = true ∧
    (entry.disposed = true ∨ ∃ (a : AcquireId) (acquire : Acquire κ),
      s.acquires[a]? = some acquire ∧ acquire.key = entry.key ∧ acquire.phase = .discarding r.entry)
  unwanted : ∀ acquire ∈ s.acquires, acquire.phase.claimed ≠ some r.entry
  /-- No handle has been issued on it since. -/
  withheld : ∀ (h : HandleId) handle, r.handles ≤ h → s.handles[h]? = some handle →
    handle.entry ≠ r.entry
  /-- No creation for its key has begun since, unless its disposal has ended. -/
  replaced : ∀ (x : ExecId) exec, r.execs ≤ x → s.execs[x]? = some exec →
    ∀ entry, s.heap[r.entry]? = some entry → exec.key = entry.key → entry.disposed = true

/-- The falsy verdict on an entry leaves it rejected. -/
theorem rejected_of_verdict {a : AcquireId} {acquire : Acquire κ} {live : EntryId} (core : Core s)
    (called : s.acquires[a]? = some acquire) (phase : acquire.phase = .validating live)
    (stepped : s.step options (.validated a (some false)) = some next) :
    Rejected next ⟨live, s.handles.length, s.execs.length⟩ := by
  have after := core_step core stepped
  have moved : next.acquires =
      (s.acquires.modify a fun acquire => { acquire with phase := .discarding live }) ∧
      next.handles = s.handles ∧ next.execs = s.execs := by
    simp only [step, called, phase, Option.bind_some, Option.some.injEq] at stepped
    subst stepped
    exact ⟨rfl, rfl, rfl⟩
  obtain ⟨acquires, handles, execs⟩ := moved
  have called' : next.acquires[a]? = some { acquire with phase := .discarding live } := by
    rw [acquires]
    exact Arena.getElem?_modify_self _ called
  obtain ⟨entry, found, key, begun, -⟩ := after.fits called' rfl
  refine ⟨⟨entry, found, begun, .inr ⟨a, _, called', key.symm, rfl⟩⟩, ?_, ?_, ?_⟩
  -- Whoever else wanted the entry would be a call of the same key in its turn.
  · intro other inside wanted
    obtain ⟨b, read⟩ := List.mem_iff_getElem?.mp inside
    by_cases same : a = b
    · subst same
      cases called'.symm.trans read
      cases wanted
    · have running := claims_claimed.stage_of_claimed wanted
      obtain ⟨record, found', key'⟩ := entry_of_claimed claims_claimed after read wanted
      cases found.symm.trans found'
      exact alone_of_running after called' rfl b other same read running (key'.symm.trans key)
  · intro h handle late read
    rw [handles] at read
    exact absurd (List.getElem?_eq_some_iff.mp read).1 (Nat.not_lt.mpr late)
  · intro x exec late read
    rw [execs] at read
    exact absurd (List.getElem?_eq_some_iff.mp read).1 (Nat.not_lt.mpr late)

/-- A step leaves a rejected entry rejected. -/
theorem Rejected.kept {r : Rejection} (core : Core s) (rejected : Rejected s r)
    (stepped : s.step options action = some next) : Rejected next r := by
  have effect := step_effect stepped
  obtain ⟨entry, found, begun, seen⟩ := rejected.awaited
  obtain ⟨after, found', follows⟩ := (effect.grows core.store).entry r.entry entry found
  have doomed : ¬ Undisposed s.heap r.entry := by
    rintro ⟨record, read, fresh⟩
    cases found.symm.trans read
    simp [begun] at fresh
  refine ⟨⟨after, found', follows.disposing begun, ?_⟩, ?_, ?_, ?_⟩
  -- The call that sees to the disposal stays until it has ended.
  · rcases seen with ended | ⟨a, acquire, called, key, phase⟩
    · exact .inl (follows.disposed ended)
    · rcases discarding_waits core stepped called phase found with ended | stays
      · exact .inl (follows.disposed ended)
      · exact .inr ⟨a, acquire, stays, key.trans follows.key.symm, phase⟩
  · intro other inside wanted
    obtain ⟨i, read⟩ := List.mem_iff_getElem?.mp inside
    rcases effect.wants core read wanted with ⟨before, called, wanted'⟩ | undisposed | new
    · exact rejected.unwanted before (List.mem_of_getElem? called) wanted'
    · exact doomed undisposed
    · exact absurd (List.getElem?_eq_some_iff.mp found).1 (Nat.not_lt.mpr new)
  · intro h handle late read same
    rcases effect.handle core read with
      ⟨before, older, kept⟩ | ⟨-, undisposed | ⟨other, inside, wanted⟩⟩
    · exact rejected.withheld h before late older (kept.trans same)
    · exact doomed (same ▸ undisposed)
    · exact rejected.unwanted other inside (same ▸ wanted)
  · intro x exec late read record read' key
    cases found'.symm.trans read'
    rw [follows.key] at key
    have older (before : Exec κ τ) (present : s.execs[x]? = some before)
        (same : before.key = exec.key) : after.disposed = true :=
      follows.disposed (rejected.replaced x before late present entry found (same.trans key))
    have flow := effect.flow core.store
    cases flow with
    | still _ same | called _ _ _ same | landed _ _ _ _ _ same =>
      rw [same] at read
      exact older exec read rfl
    | finished y answer other present outstanding same =>
      rw [same] at read
      rcases Arena.getElem?_modify_cases read with ⟨-, old, before, rfl⟩ | ⟨-, before⟩
      · exact older old before rfl
      · exact older exec before rfl
    | started a answer name same =>
      rw [same] at read
      rcases Arena.getElem?_push_cases read with ⟨-, rfl⟩ | before
      -- A creation of the key begins while no other call of the key is in its turn.
      · rcases seen with ended | ⟨b, acquire, called, key', phase⟩
        · exact follows.disposed ended
        · cases effect with
          | breakerless =>
            exact absurd (congrArg List.length same) (by simp [setPhase, releaseReservation])
          | creating _ granted _ bank called' phase' =>
            have named : granted.key = name := by simpa [setPhase] using same
            have apart : b ≠ a := by
              rintro rfl
              cases called.symm.trans called'
              cases phase.symm.trans phase'
            exact absurd (named.trans (key.trans key'.symm)) (alone_of_running core called
              (by rw [phase]; rfl) a granted apart called' (by rw [phase']; rfl))
      · exact older exec before rfl

end State

/-- A pool with the rejections so far. -/
structure Audited (κ τ : Type) where
  state : State κ τ
  rejections : List Rejection

namespace Audited

open State

/-- A new pool, which has rejected nothing. -/
def init (options : PoolOptions) : Audited κ τ := ⟨State.init options, []⟩

/-- Take a step, and note what it rejects. -/
def observe (options : PoolOptions) (w : Audited κ τ) (action : Action κ τ) :
    Option (Audited κ τ) :=
  (w.state.step options action).map fun next =>
    { state := next
      rejections := w.rejections ++ (w.state.rejection action).toList }

/-- What was rejected is not handed out, and is gone before a creation for its key begins. -/
structure NeverReused (w : Audited κ τ) : Prop where
  /-- No acquire has returned a handle on a rejected entry since. -/
  withheld : ∀ r ∈ w.rejections, ∀ (h : HandleId) handle, r.handles ≤ h →
    w.state.handles[h]? = some handle → handle.entry ≠ r.entry
  /-- Once an `exec` for its key is called, within which the factory is, it has been disposed of. -/
  replaced : ∀ r ∈ w.rejections, ∀ (x : ExecId) exec, r.execs ≤ x →
    w.state.execs[x]? = some exec → ∀ entry, w.state.heap[r.entry]? = some entry →
    exec.key = entry.key → entry.disposed = true

/-- Everything noted stands: each rejected entry is on its way out. -/
structure Stands (w : Audited κ τ) : Prop where
  core : Core w.state
  rejected : ∀ r ∈ w.rejections, Rejected w.state r

/-- Nothing is noted of a new pool. -/
theorem stands_init (options : PoolOptions) : Stands (init options : Audited κ τ) :=
  -- Nothing was rejected yet.
  ⟨core_init options, fun _ inside => by cases inside⟩

/-- Every step leaves what was noted standing. -/
theorem Stands.observe {options : PoolOptions} {w next : Audited κ τ} {action : Action κ τ}
    (stands : Stands w) (observed : observe options w action = some next) : Stands next := by
  obtain ⟨s, stepped, rfl⟩ := Option.map_eq_some_iff.mp observed
  refine ⟨core_step stands.core stepped, fun r inside => ?_⟩
  -- A step adds at most one rejection, and keeps the others.
  rcases List.mem_append.mp inside with before | new
  · exact (stands.rejected r before).kept stands.core stepped
  · cases step_effect stepped with
    | refuted a acquire live called phase =>
      simp only [rejection, called, phase, Phase.examined, Option.bind_some, Option.map_some,
        Option.toList_some, List.mem_singleton] at new
      subst new
      exact rejected_of_verdict stands.core called phase stepped
    | _ => cases new

/-- In no run is a rejected resource reused, or replaced before its disposal has ended. -/
theorem neverReused_throughout (options : PoolOptions) (actions : List (Action κ τ)) :
    Runs.Throughout (observe options) NeverReused (init options) actions := by
  -- What is noted of the rejected entries is an invariant, and both clauses are read off it.
  have kept : Runs.Throughout (observe options) Stands (init options) actions :=
    Runs.throughout_of_invariant Stands
      (fun w action next stands observed => stands.observe observed) (stands_init options) actions
  exact kept.mono fun w stands => ⟨fun r inside => (stands.rejected r inside).withheld,
    fun r inside => (stands.rejected r inside).replaced⟩

end Audited

end RefPool
