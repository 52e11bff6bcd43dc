import RefPool.Proofs.Core

/-! The life of a call of `acquire`: which phase follows which, and whose step it is. -/

namespace RefPool

namespace Phase

/-- Whether a call has been neither granted a slot nor settled. -/
def isWaiting : Phase → Bool
  | .queued _ | .validating _ | .discarding _ | .parked _ => true
  | _ => false

/-- Whether a call has not come to the reservation loop yet. -/
def isEarly : Phase → Bool
  | .queued _ | .validating _ | .discarding _ => true
  | _ => false

/-- The phases that a call goes through, one from the other. -/
inductive Goes : Phase → Phase → Prop
  /-- The live entry of the key is idle and has to be validated. -/
  | examined (after : Option AcquireId) (live : EntryId) : Goes (.queued after) (.validating live)
  /-- The live entry failed validation. -/
  | refuted (live : EntryId) : Goes (.validating live) (.discarding live)
  /-- An entry of the key is at hand. -/
  | found (before : Phase) (e : EntryId) (early : before.isEarly = true) :
      Goes before (.returned e)
  /-- A slot is granted. -/
  | granted (before : Phase) (waiting : before.isWaiting = true) : Goes before .granted
  /-- The call parks, again or for the first time. -/
  | parked (before : Phase) (w : WaiterId) (waiting : before.isWaiting = true) :
      Goes before (.parked w)
  /-- The call fails before a slot is granted. -/
  | refused (before : Phase) (error : PoolError) (waiting : before.isWaiting = true) :
      Goes before (.threw error)
  | creating (x : ExecId) : Goes .granted (.creating x)
  /-- There is no breaker to create with. -/
  | breakerless : Goes .granted (.threw .breakerFactoryFailed)
  | inserted (x : ExecId) (e : EntryId) : Goes (.creating x) (.returned e)
  /-- The creation failed. -/
  | failed (x : ExecId) : Goes (.creating x) (.threw .execFailed)
  /-- The pool was closed while the factory ran. -/
  | late (x : ExecId) : Goes (.creating x) .closing
  | closed : Goes .closing (.threw .poolClosed)
  | fulfilled (e : EntryId) (h : HandleId) : Goes (.returned e) (.fulfilled h)
  | rejected (error : PoolError) : Goes (.threw error) (.rejected error)

/-- A call that comes late to the reservation loop has been early before. -/
theorem Goes.isEarly_before {before after : Phase} (goes : Goes before after)
    (early : after.isEarly = true) : before.isEarly = true := by
  -- No phase leads back to the early ones.
  cases goes <;> first | rfl | cases early

/-- A call that has an entry never fails any more. -/
theorem Goes.kept {before after : Phase} (goes : Goes before after)
    (kept : (∃ e, before = .returned e) ∨ ∃ h, before = .fulfilled h) :
    ∃ h, after = .fulfilled h := by
  -- Nothing but the delivery of its handle follows.
  rcases kept with ⟨e, rfl⟩ | ⟨h, rfl⟩
  · cases goes with
    | fulfilled e h => exact ⟨h, rfl⟩
    | found _ _ early => cases early
    | granted _ waiting | parked _ _ waiting | refused _ _ waiting => cases waiting
  · cases goes with
    | found _ _ early => cases early
    | granted _ waiting | parked _ _ waiting | refused _ _ waiting => cases waiting

/-- Whether a call is granted a slot, parks, or is turned away. -/
def isVerdict : Phase → Bool
  | .granted | .parked _ | .threw .poolExhausted => true
  | _ => false

/-- The reservation loop decides on early calls and on parked ones. -/
theorem Goes.parked_of_verdict {before after : Phase} (goes : Goes before after)
    (verdict : after.isVerdict = true) (late : before.isEarly = false) :
    ∃ w, before = .parked w := by
  -- A waiting call is early or parked.
  have parked (waiting : before.isWaiting = true) : ∃ w, before = .parked w := by
    cases before with
    | parked w => exact ⟨w, rfl⟩
    | queued | validating | discarding => cases late
    | granted | creating | closing | returned | threw | fulfilled | rejected => cases waiting
  cases goes with
  | granted _ waiting | parked _ _ waiting | refused _ _ waiting => exact parked waiting
  | examined | refuted | found | creating | breakerless | inserted | failed | late | closed
  | fulfilled | rejected => cases verdict

end Phase

namespace State

variable {κ τ : Type} [DecidableEq κ] {options : PoolOptions} {s next : State κ τ}
  {a : AcquireId} {acquire : Acquire κ} {key : κ}

/-- The call of `acquire` that a step belongs to. -/
def actor (s : State κ τ) : Action κ τ → Option AcquireId
  | .acquire _ => some s.acquires.length
  | .obtain a | .discarded a | .resume a | .create a _ | .deliver a | .validated a _
  | .lateDisposeSettled a => some a
  | .execSettled x _ => (s.execs[x]?).map Exec.acquire
  | _ => none

/-- What a step does to the calls of `acquire`. -/
inductive CallsEffect (s : State κ τ) : Action κ τ → List (Acquire κ) → Prop
  | same (action : Action κ τ) (alien : s.actor action = none) :
      CallsEffect s action s.acquires
  /-- A call goes on. -/
  | moved (action : Action κ τ) (a : AcquireId) (acquire : Acquire κ) (phase : Phase)
      (own : s.actor action = some a) (called : s.acquires[a]? = some acquire)
      (goes : acquire.phase.Goes phase) :
      CallsEffect s action (s.acquires.modify a fun acquire => { acquire with phase })
  /-- A call is made: it takes the fast path, or is queued. -/
  | made (key : κ) (cell : Option CellId) (phase : Phase)
      (start : (∃ h, phase = .fulfilled h) ∨
        phase = .queued ((s.toKeyState.incPending key).tailOf key)) :
      CallsEffect s (.acquire key) (s.acquires ++ [⟨key, cell, phase⟩])

/-- A turn of the reservation loop moves a waiting call on. -/
theorem SlotEffect.goes (effect : SlotEffect options s a next)
    (waiting : acquire.phase.isWaiting = true) : ∃ phase, acquire.phase.Goes phase ∧
      next.acquires = s.acquires.modify a fun acquire => { acquire with phase } := by
  -- Each outcome of the turn is one step in the life of the call.
  cases effect with
  | unbounded | reserved | evicted => exact ⟨_, .granted _ waiting, rfl⟩
  | refused | exhausted => exact ⟨_, .refused _ _ waiting, rfl⟩
  | parked => exact ⟨_, .parked _ _ waiting, rfl⟩

/-- `obtain` from the orphan lookup on moves an early call on. -/
theorem MissEffect.goes (effect : MissEffect options s a key next)
    (early : acquire.phase.isEarly = true) : ∃ phase, acquire.phase.Goes phase ∧
      next.acquires = s.acquires.modify a fun acquire => { acquire with phase } := by
  -- The call finds an orphan, fails, or comes to the reservation loop.
  have waiting : acquire.phase.isWaiting = true := by
    cases phase : acquire.phase <;> simp_all [Phase.isEarly, Phase.isWaiting]
  cases effect with
  | resurrected e => exact ⟨_, .found _ e early, rfl⟩
  | refused => exact ⟨_, .refused _ _ waiting, rfl⟩
  | slot _ _ _ effect => exact effect.goes waiting

/-- Every step has one of the effects on the calls. -/
theorem Effect.calls {action : Action κ τ} (core : Core s)
    (effect : Effect options s action next) : CallsEffect s action next.acquires := by
  -- Each step of a call takes it to one of the phases that may follow.
  have goes {a : AcquireId} {acquire : Acquire κ} {phase before : Phase}
      (own : s.actor action = some a) (called : s.acquires[a]? = some acquire)
      (at_ : acquire.phase = before) (goes : before.Goes phase)
      (moved : next.acquires = s.acquires.modify a fun acquire => { acquire with phase }) :
      CallsEffect s action next.acquires := by
    subst at_
    exact moved ▸ .moved action a acquire phase own called goes
  have same (alien : s.actor action = none) (kept : next.acquires = s.acquires) :
      CallsEffect s action next.acquires := kept ▸ .same action alien
  cases effect with
  | shared key e =>
    have pushed := shared_acquires s.acquires key (.fulfilled s.handles.length)
    have made : CallsEffect s (.acquire key : Action κ τ)
        (s.acquires ++ [⟨key, none, .fulfilled s.handles.length⟩]) :=
      .made key none _ (.inl ⟨_, rfl⟩)
    rw [← pushed] at made
    exact made
  -- Steps of handles and of the pool itself move no call.
  | queued key => exact .made key _ _ (.inr rfl)
  | released h handle next found holding effect => exact same rfl effect.sameCalls.acquires
  | releasedKey key e next bound effect => exact same rfl effect.sameCalls.acquires
  | drain => exact same rfl (sameCalls_drain core.store).acquires
  | stop => exact same rfl (sameCalls_drain (s := s.setClosed.stopTimers) core.store).acquires
  | sweep => exact same rfl (sameCalls_sweep core.store).acquires
  | validating a acquire after e entry called phase =>
    exact goes rfl called phase (.examined after e) rfl
  | returned a acquire after e entry called phase =>
    exact goes rfl called phase (.found _ e rfl) rfl
  -- What the search for an orphan leads to depends on what it finds.
  | missed a acquire after next called phase turn absent effect =>
    have early : acquire.phase.isEarly = true := by rw [phase]; rfl
    obtain ⟨phase', moves, moved⟩ := effect.goes early
    exact goes rfl called rfl moves moved
  | discarded a acquire live next called phase effect =>
    have early : acquire.phase.isEarly = true := by rw [phase]; rfl
    obtain ⟨phase', moves, moved⟩ := effect.goes early
    exact goes rfl called rfl moves moved
  | resumed a acquire w waiter next called phase found woken effect =>
    have waiting : acquire.phase.isWaiting = true := by rw [phase]; rfl
    obtain ⟨phase', moves, moved⟩ := effect.goes waiting
    exact goes rfl called rfl moves moved
  | abandoned a acquire w waiter error called phase =>
    exact goes rfl called phase (.refused _ error rfl) rfl
  | breakerless a acquire answer called phase => exact goes rfl called phase .breakerless rfl
  | creating a acquire answer bank called phase => exact goes rfl called phase (.creating _) rfl
  | delivered a acquire e called phase => exact goes rfl called phase (.fulfilled e _) rfl
  | failed a acquire error called phase => exact goes rfl called phase (.rejected error) rfl
  | unvalidated a acquire live called phase =>
    exact goes rfl called phase (.refused _ _ rfl) rfl
  | passed a acquire live called phase => exact goes rfl called phase (.found _ live rfl) rfl
  | refuted a acquire live called phase => exact goes rfl called phase (.refuted live) rfl
  -- The end of an exec moves the call that awaits it.
  | execRejected x exec found outstanding =>
    obtain ⟨acquire, called, -, phase⟩ := core.execs.awaited x exec found outstanding
    exact goes (by simp [actor, found]) called phase (.failed x) rfl
  | execLate x exec resource found outstanding =>
    obtain ⟨acquire, called, -, phase⟩ := core.execs.awaited x exec found outstanding
    exact goes (by simp [actor, found]) called phase (.late x) rfl
  | inserted x exec resource found outstanding =>
    obtain ⟨acquire, called, -, phase⟩ := core.execs.awaited x exec found outstanding
    exact goes (by simp [actor, found]) called phase (.inserted x _) rfl
  | lateDisposeSettled a acquire called phase => exact goes rfl called phase .closed rfl
  | releasedAgain | releasedNone | start | gcKeyState | emitStats | timeout | clock | drained
  | factoryCalled | factorySettled | disposeSettled | breakerChanged => exact same rfl rfl

/-- A call is still there after a step, as it was or gone on. -/
theorem call_goes {action : Action κ τ} (core : Core s)
    (stepped : s.step options action = some next) {i : Nat} {before : Acquire κ}
    (called : s.acquires[i]? = some before) : ∃ after, next.acquires[i]? = some after ∧
      (after = before ∨ before.phase.Goes after.phase) := by
  -- Moving and adding calls keeps the others.
  have effect := (step_effect stepped).calls core
  generalize next.acquires = acquires at effect
  cases effect with
  | same => exact ⟨before, called, .inl rfl⟩
  | moved action a acquire phase own read goes =>
    refine Arena.exists_getElem?_modify called (fun here => .inr ?_) fun _ => .inl rfl
    cases (here ▸ called).symm.trans read
    exact goes
  | made => exact ⟨before, Arena.getElem?_push_of_some _ called, .inl rfl⟩

/-- What a call is after a step, by what it was before. -/
theorem call_of_step {action : Action κ τ} (core : Core s)
    (stepped : s.step options action = some next) {i : Nat} {after : Acquire κ}
    (read : next.acquires[i]? = some after) :
    (∃ before, s.acquires[i]? = some before ∧ after.key = before.key ∧
      (after = before ∨ (s.actor action = some i ∧ before.phase.Goes after.phase))) ∨
    (i = s.acquires.length ∧ action = .acquire after.key ∧
      ((∃ h, after.phase = .fulfilled h) ∨ ∃ p, after.phase = .queued p)) := by
  -- The call is there already, or it is the one that is made.
  have effect := (step_effect stepped).calls core
  generalize next.acquires = acquires at effect read
  cases effect with
  | same action alien => exact .inl ⟨after, read, rfl, .inl rfl⟩
  | moved action a acquire phase own called goes =>
    rcases Arena.getElem?_modify_cases read with ⟨rfl, old, before, rfl⟩ | ⟨-, before⟩
    · cases called.symm.trans before
      exact .inl ⟨acquire, called, rfl, .inr ⟨own, goes⟩⟩
    · exact .inl ⟨after, before, rfl, .inl rfl⟩
  | made key cell phase start =>
    rcases Arena.getElem?_push_cases read with ⟨rfl, rfl⟩ | before
    · exact .inr ⟨rfl, rfl, start.imp id fun queued => ⟨_, queued⟩⟩
    · exact .inl ⟨after, before, rfl, .inl rfl⟩

end State

end RefPool
