import RefPool.Lib.Runs
import RefPool.Proofs.Loops
import RefPool.Proofs.Phases

/-! The invariant of every run: store, marks, mutexes, calls and execs fit together. -/

namespace RefPool

variable {κ τ : Type} [DecidableEq κ]

/-- A pending exec and the call that awaits it name each other. -/
structure ExecsMatch (execs : List (Exec κ τ)) (acquires : List (Acquire κ)) : Prop where
  awaited : ∀ (x : Nat) exec, execs[x]? = some exec → exec.outcome = .pending →
    ∃ acquire, acquires[exec.acquire]? = some acquire ∧ acquire.key = exec.key ∧
      acquire.phase = .creating x
  started : ∀ (a : Nat) acquire (x : Nat), acquires[a]? = some acquire →
    acquire.phase = .creating x →
    ∃ exec, execs[x]? = some exec ∧ exec.outcome = .pending ∧ exec.acquire = a ∧
      exec.key = acquire.key

namespace ExecsMatch

variable {execs : List (Exec κ τ)} {acquires : List (Acquire κ)} {a : AcquireId}
  {acquire : Acquire κ} {phase : Phase}

omit [DecidableEq κ] in
/-- A call that neither leaves nor enters `exec` leaves the execs matched. -/
theorem rephase (matched : ExecsMatch execs acquires) (called : acquires[a]? = some acquire)
    (leaving : ∀ x, acquire.phase ≠ .creating x) (entering : ∀ x, phase ≠ .creating x) :
    ExecsMatch execs (acquires.modify a fun acquire => { acquire with phase }) where
  -- The call awaits no exec before or after, so no exec loses its call.
  awaited := by
    intro x exec found outstanding
    obtain ⟨other, called', key, creating⟩ := matched.awaited x exec found outstanding
    refine ⟨other, ?_, key, creating⟩
    rw [Arena.getElem?_modify_other _ _ ?_, called']
    rintro rfl
    cases called.symm.trans called'
    exact leaving x creating
  started := by
    intro b other x read creating
    rcases Arena.getElem?_modify_cases read with ⟨rfl, old, before, rfl⟩ | ⟨-, before⟩
    · exact absurd creating (entering x)
    · exact matched.started b other x before creating

omit [DecidableEq κ] in
/-- A new call leaves the execs matched. -/
theorem push (matched : ExecsMatch execs acquires) (entering : ∀ x, acquire.phase ≠ .creating x) :
    ExecsMatch execs (acquires ++ [acquire]) where
  -- A new call awaits nothing yet.
  awaited := by
    intro x exec found outstanding
    obtain ⟨other, called, rest⟩ := matched.awaited x exec found outstanding
    exact ⟨other, Arena.getElem?_push_of_some _ called, rest⟩
  started := by
    intro b other x read creating
    rcases Arena.getElem?_push_cases read with ⟨-, rfl⟩ | before
    · exact absurd creating (entering x)
    · exact matched.started b other x before creating

omit [DecidableEq κ] in
/-- A granted call starts its exec. -/
theorem start (matched : ExecsMatch execs acquires) (called : acquires[a]? = some acquire)
    (leaving : ∀ x, acquire.phase ≠ .creating x) :
    ExecsMatch (execs ++ [⟨a, acquire.key, .pending⟩])
      (acquires.modify a fun acquire => { acquire with phase := .creating execs.length }) where
  -- The fresh exec and the call name each other, and the older pairs are as they were.
  awaited := by
    intro x exec found outstanding
    rcases Arena.getElem?_push_cases found with ⟨rfl, rfl⟩ | before
    · exact ⟨_, Arena.getElem?_modify_self _ called, rfl, rfl⟩
    · obtain ⟨other, called', key, creating⟩ := matched.awaited x exec before outstanding
      refine ⟨other, ?_, key, creating⟩
      rw [Arena.getElem?_modify_other _ _ ?_, called']
      rintro rfl
      cases called.symm.trans called'
      exact leaving x creating
  started := by
    intro b other x read creating
    rcases Arena.getElem?_modify_cases read with ⟨rfl, old, before, rfl⟩ | ⟨-, before⟩
    · obtain rfl : execs.length = x := by simpa using creating
      cases called.symm.trans before
      exact ⟨⟨a, acquire.key, .pending⟩, by simp, rfl, rfl, rfl⟩
    · obtain ⟨exec, found, rest⟩ := matched.started b other x before creating
      exact ⟨exec, Arena.getElem?_push_of_some _ found, rest⟩

omit [DecidableEq κ] in
/-- An exec settles and its call goes on. -/
theorem finish {x : ExecId} {exec : Exec κ τ} {outcome : Outcome τ}
    (matched : ExecsMatch execs acquires) (found : execs[x]? = some exec)
    (outstanding : exec.outcome = .pending) (settled : outcome ≠ .pending)
    (entering : ∀ x, phase ≠ .creating x) :
    ExecsMatch (execs.modify x fun exec => { exec with outcome })
      (acquires.modify exec.acquire fun acquire => { acquire with phase }) where
  awaited := by
    intro y other read pending
    rcases Arena.getElem?_modify_cases read with ⟨rfl, old, before, rfl⟩ | ⟨differ, before⟩
    · exact absurd pending settled
    · obtain ⟨waiting, called, key, creating⟩ := matched.awaited y other before pending
      refine ⟨waiting, ?_, key, creating⟩
      rw [Arena.getElem?_modify_other _ _ ?_, called]
      -- Two execs of one call would both be the one it awaits.
      intro same
      obtain ⟨first, called', -, creating'⟩ := matched.awaited x exec found outstanding
      rw [same, called] at called'
      cases called'
      exact differ (by simpa [creating] using creating'.symm)
  started := by
    intro b other y read creating
    rcases Arena.getElem?_modify_cases read with ⟨-, old, -, rfl⟩ | ⟨differ, before⟩
    · exact absurd creating (entering y)
    · obtain ⟨record, present, pending, named, key⟩ := matched.started b other y before creating
      refine ⟨record, ?_, pending, named, key⟩
      rw [Arena.getElem?_modify_other _ _ ?_, present]
      rintro rfl
      cases found.symm.trans present
      exact differ named

end ExecsMatch

/-- The invariant of every run. -/
structure Core (s : State κ τ) : Prop where
  store : s.toStore.WellFormed
  chained : Chained s.toKeyState (s.acquires.map Acquire.slot)
  phases : Phases s.toStore s.acquires
  execs : ExecsMatch s.execs s.acquires

/-- A call suspended in a phase has what it relies on there. -/
theorem Core.fits {s : State κ τ} (core : Core s) {a : Nat} {acquire : Acquire κ} {phase : Phase}
    (called : s.acquires[a]? = some acquire) (suspended : acquire.phase = phase) :
    phase.Fits s.toStore acquire.key :=
  -- The invariant says so of the phase that the call has.
  suspended ▸ core.phases a acquire called

namespace State

variable {options : PoolOptions} {s next : State κ τ} {a : AcquireId} {key : κ} {e : EntryId}

/-- A new pool satisfies the invariant. -/
theorem core_init (options : PoolOptions) : Core (init options : State κ τ) where
  -- There are neither calls nor entries.
  store := Store.wellFormed_empty
  chained := Chained.empty
  phases := by simp [Phases, init]
  execs := by constructor <;> simp [init]

/-! ### The store -/

/-- Moving on from the reservation loop keeps the store well formed. -/
theorem SlotEffect.wellFormed (effect : SlotEffect options s a next)
    (wf : s.toStore.WellFormed) : next.toStore.WellFormed := by
  -- Only an eviction touches the store, and its victim is listed and so unheld.
  cases effect with
  | evicted victim _ _ _ listed =>
    obtain ⟨entry, found, -⟩ := wf.listed victim listed
    exact wf.evict found (wf.unheld_of_listed listed found)
  | unbounded | refused | reserved | exhausted | parked => exact wf

/-- Moving on from the orphan lookup keeps the store well formed. -/
theorem MissEffect.wellFormed (effect : MissEffect options s a key next)
    (wf : s.toStore.WellFormed) : next.toStore.WellFormed := by
  -- A resurrection is the only change before the reservation loop.
  cases effect with
  | resurrected e bound => exact wf.resurrect bound
  | refused => exact wf
  | slot _ _ _ effect => exact effect.wellFormed wf

/-- Dropping a reference keeps the store well formed. -/
theorem ReleaseEffect.wellFormed (effect : ReleaseEffect s e next)
    (wf : s.toStore.WellFormed) : next.toStore.WellFormed := by
  -- The last release is one assignment, followed by a disposal or by the listing.
  cases effect with
  | ignored => exact wf
  | dropped entry found _ shared => exact wf.drop found shared
  | retired entry found =>
    have retired := wf.retire found (lastDrop s.now) rfl (fun _ => rfl)
      (wf.sound e entry found).ended
    rwa [← stampReleased_dropReference] at retired
  | freed entry found _ last kept =>
    have freed := wf.free found (lastDrop s.now) rfl rfl rfl (by simp [lastDrop, last]) kept kept
      fun _ => rfl
    rwa [← stampReleased_dropReference] at freed

/-- A drain keeps the store well formed. -/
theorem wellFormed_drain (wf : s.toStore.WellFormed) : s.drain.toStore.WellFormed := by
  -- Every turn of the drain is an eviction, an orphaning or a mark.
  obtain ⟨last, waits, sound, -, -, same⟩ := drain_rule (s := s) (P := fun _ _ => True) wf
    (fun _ _ _ _ _ _ _ _ _ => trivial) (fun _ _ _ _ _ _ _ _ _ => trivial)
    (fun _ _ _ _ _ _ _ _ _ => trivial) trivial
  rw [same]
  exact sound.resetIdle

/-- Every step keeps the store well formed. -/
theorem Effect.wellFormed {action : Action κ τ} (core : Core s)
    (effect : Effect options s action next) : next.toStore.WellFormed := by
  -- The steps that touch the store are a handful, each with its own law.
  have wf := core.store
  cases effect with
  | shared key e entry bound found => exact wf.checkout found
  | released h handle next found holding effect => exact effect.wellFormed wf
  | releasedKey key e next bound effect => exact effect.wellFormed wf
  | drain | stop => exact wellFormed_drain wf
  | sweep =>
    exact (sweep_rule options (P := fun _ => True) wf (fun _ _ _ _ _ _ _ _ => trivial)
      (fun _ _ => id) trivial).1
  | missed a acquire after next called phase turn absent effect => exact effect.wellFormed wf
  | discarded a acquire live next called phase effect => exact effect.wellFormed wf
  | resumed a acquire w waiter next called phase found woken effect => exact effect.wellFormed wf
  | delivered a acquire e called phase =>
    obtain ⟨entry, found, -⟩ := core.fits called phase
    exact wf.checkout found
  | refuted a acquire live called phase =>
    obtain ⟨entry, found, -⟩ := core.fits called phase
    exact wf.discard found
  -- The key of the call was no orphan when it was granted its slot, and is none yet.
  | inserted x exec resource found outstanding =>
    obtain ⟨acquire, called, same, phase⟩ := core.execs.awaited x exec found outstanding
    have fits := core.fits called phase
    exact wf.insert resource s.now (same ▸ fits.2)
  | disposeSettled e entry found started =>
    exact (wf.finish found started).setWaiters fun _ => []
  | queued | releasedAgain | releasedNone | start | gcKeyState | emitStats | timeout | clock
  | validating | returned | abandoned | breakerless | creating | failed | drained | unvalidated
  | passed | factoryCalled | factorySettled | execRejected | execLate | lateDisposeSettled
  | breakerChanged => exact wf

/-! ### The calls in flight -/

/-- The calls, handles and callbacks around the pool are untouched. -/
structure SameCalls (s next : State κ τ) : Prop where
  acquires : next.acquires = s.acquires
  keys : next.toKeyState = s.toKeyState
  handles : next.handles = s.handles
  execs : next.execs = s.execs
  factoryCalls : next.factoryCalls = s.factoryCalls

omit [DecidableEq κ] in
/-- Nothing is touched by doing nothing. -/
theorem SameCalls.refl (s : State κ τ) : SameCalls s s :=
  -- Every field is what it is.
  ⟨rfl, rfl, rfl, rfl, rfl⟩

omit [DecidableEq κ] in
/-- Steps that touch no call compose. -/
theorem SameCalls.trans {last : State κ τ} (first : SameCalls s next)
    (second : SameCalls next last) : SameCalls s last where
  -- The equations of both steps compose.
  acquires := second.acquires.trans first.acquires
  keys := second.keys.trans first.keys
  handles := second.handles.trans first.handles
  execs := second.execs.trans first.execs
  factoryCalls := second.factoryCalls.trans first.factoryCalls

/-- Dropping a reference touches no call. -/
theorem ReleaseEffect.sameCalls (effect : ReleaseEffect s e next) : SameCalls s next := by
  -- All its outcomes change entries, counters or the gate.
  cases effect <;> exact ⟨rfl, rfl, rfl, rfl, rfl⟩

/-- A drain touches no call. -/
theorem sameCalls_drain (wf : s.toStore.WellFormed) : SameCalls s s.drain := by
  -- The turns touch the store, the counters and the waits of disposals.
  obtain ⟨last, waits, -, calls, -, same⟩ := drain_rule (s := s)
    (P := fun next _ => SameCalls s next) wf
    (fun _ _ _ _ _ calls _ _ _ => calls.trans ⟨rfl, rfl, rfl, rfl, rfl⟩)
    (fun _ _ _ _ _ calls _ _ _ => calls.trans ⟨rfl, rfl, rfl, rfl, rfl⟩)
    (fun _ _ _ _ _ calls _ _ _ => calls.trans ⟨rfl, rfl, rfl, rfl, rfl⟩)
    ⟨rfl, rfl, rfl, rfl, rfl⟩
  rw [same]
  exact calls.trans ⟨rfl, rfl, rfl, rfl, rfl⟩

/-- A sweep touches no call. -/
theorem sameCalls_sweep (wf : s.toStore.WellFormed) : SameCalls s (s.sweep options) := by
  -- The turns touch the store, the counters and the gate.
  exact (sweep_rule options (P := fun next => SameCalls s next) wf
    (fun _ _ _ _ calls _ _ _ => calls.trans ⟨rfl, rfl, rfl, rfl, rfl⟩)
    (fun _ _ calls => calls.trans ⟨rfl, rfl, rfl, rfl, rfl⟩) (.refl s)).2

/-- One call moves to a phase within its turn, and nothing else around the pool changes. -/
structure Acts (s next : State κ τ) (a : AcquireId) : Prop where
  keys : next.toKeyState = s.toKeyState
  moved : ∃ phase : Phase, phase.stage = .running ∧ (∀ x, phase ≠ .creating x) ∧
    next.acquires = s.acquires.modify a fun acquire => { acquire with phase }
  handles : next.handles = s.handles
  execs : next.execs = s.execs
  factoryCalls : next.factoryCalls = s.factoryCalls

/-- A turn of the reservation loop moves its own call. -/
theorem SlotEffect.acts (effect : SlotEffect options s a next) : Acts s next a := by
  -- All its outcomes assign the phase of one call.
  cases effect <;> exact ⟨rfl, ⟨_, rfl, fun _ => by simp, rfl⟩, rfl, rfl, rfl⟩

/-- `obtain` from the orphan lookup on moves its own call. -/
theorem MissEffect.acts (effect : MissEffect options s a key next) : Acts s next a := by
  -- A resurrection and a refusal assign the phase themselves.
  cases effect with
  | resurrected | refused => exact ⟨rfl, ⟨_, rfl, fun _ => by simp, rfl⟩, rfl, rfl, rfl⟩
  | slot _ _ _ effect =>
    exact ⟨effect.acts.keys, effect.acts.moved, effect.acts.handles, effect.acts.execs,
      effect.acts.factoryCalls⟩

/-- A call within its turn stays within it. -/
theorem chained_running (chained : Chained s.toKeyState (s.acquires.map Acquire.slot))
    {acquire : Acquire κ} {phase : Phase} (called : s.acquires[a]? = some acquire)
    (running : acquire.phase.stage = .running) (stage : phase.stage = .running) :
    Chained s.toKeyState
      ((s.acquires.modify a fun acquire => { acquire with phase }).map Acquire.slot) := by
  -- The mutex does not see a change of phase within a turn.
  rw [slots_of_same_stage called (stage.trans running.symm)]
  exact chained

omit [DecidableEq κ] in
/-- Whether the predecessor of a queued call has settled, as the mutex sees it. -/
theorem turnOf_settled {after : Option AcquireId} (turn : s.turnOf after = true) (p : AcquireId)
    (behind : after = some p) :
    ∃ before, (s.acquires.map Acquire.slot)[p]? = some before ∧ before.isOpen = false := by
  -- A call has had its turn exactly when its promise has settled.
  subst behind
  unfold turnOf at turn
  cases called : s.acquires[p]? with
  | none => simp [called] at turn
  | some acquire =>
    refine ⟨acquire.slot, by simp [called], ?_⟩
    cases phase : acquire.phase <;> simp_all [Slot.isOpen, Acquire.slot, Phase.stage]

/-- A queued call whose turn has come starts. -/
theorem chained_queued (chained : Chained s.toKeyState (s.acquires.map Acquire.slot))
    {acquire : Acquire κ} {after : Option AcquireId} {reached : Phase}
    (called : s.acquires[a]? = some acquire) (phase : acquire.phase = .queued after)
    (turn : s.turnOf after = true) (stage : reached.stage = .running) :
    Chained s.toKeyState ((s.acquires.modify a fun acquire =>
      { acquire with phase := reached }).map Acquire.slot) := by
  -- The mutex sees the call start, which its turn allows.
  rw [slots_of_phase, stage]
  exact chained.start (slot_of_called called)
    (by simp [Acquire.slot, phase, Phase.stage]) (turnOf_settled turn)

/-- The end of a running call drops its mark and its place on the mutex. -/
theorem chained_deliver (chained : Chained s.toKeyState (s.acquires.map Acquire.slot))
    {acquire : Acquire κ} (called : s.acquires[a]? = some acquire)
    (running : acquire.phase.stage = .running) (outcome : Except PoolError EntryId) :
    Chained (s.deliver a acquire outcome).toKeyState
      ((s.deliver a acquire outcome).acquires.map Acquire.slot) := by
  -- An open call is chained on a cell, so the settlement goes through it.
  have found := slot_of_called called
  obtain ⟨c, -, -, -, onCell, -⟩ := chained.tail a acquire.slot found
    (by simp [Slot.isOpen, Acquire.slot, running])
  have settled := chained.settle found running onCell s.now
  have chosen : acquire.cell = some c := onCell
  cases outcome <;> simp only [deliver, chosen]
  · have restaged := slots_of_phase s.acquires a (.rejected ‹PoolError›)
    simp only [Phase.stage] at restaged
    rw [← restaged] at settled
    exact settled
  · have restaged := slots_of_phase s.acquires a (.fulfilled s.handles.length)
    simp only [Phase.stage] at restaged
    rw [← restaged] at settled
    exact settled

omit [DecidableEq κ] in
/-- A call on the fast path settles before anything else runs. -/
theorem shared_acquires (acquires : List (Acquire κ)) (key : κ) (phase : Phase) :
    (acquires ++ [(⟨key, none, .queued none⟩ : Acquire κ)]).modify acquires.length
      (fun acquire => { acquire with phase }) = acquires ++ [⟨key, none, phase⟩] :=
  -- The call that moves is the one that was pushed.
  Arena.modify_push _ _ _

/-- Every step keeps marks and mutexes in agreement with the calls in flight. -/
theorem Effect.chained {action : Action κ τ} (core : Core s)
    (effect : Effect options s action next) :
    Chained next.toKeyState (next.acquires.map Acquire.slot) := by
  -- A step calls `acquire`, starts a queued call, moves a running one or settles one.
  have chained := core.chained
  cases effect with
  -- The fast path marks the key and unmarks it within one step.
  | shared key e entry bound found =>
    have passed := chained.pass key
    have calls := congrArg (List.map Acquire.slot)
      (shared_acquires s.acquires key (.fulfilled s.handles.length))
    rw [List.map_append] at calls
    rw [show [(⟨key, none, .settled⟩ : Slot κ)] = [(⟨key, none, .fulfilled s.handles.length⟩ :
      Acquire κ)].map Acquire.slot from rfl, ← calls] at passed
    exact passed
  | queued key =>
    have queued := chained.enqueue key s.now
    rw [List.length_map] at queued
    show Chained _ ((s.acquires ++ _).map Acquire.slot)
    rw [List.map_append]
    exact queued
  | released h handle next found holding effect =>
    rw [effect.sameCalls.keys, effect.sameCalls.acquires]
    exact chained
  | releasedKey key e next bound effect =>
    rw [effect.sameCalls.keys, effect.sameCalls.acquires]
    exact chained
  | drain =>
    have same := sameCalls_drain core.store
    rw [same.keys, same.acquires]
    exact chained
  | stop =>
    have same := sameCalls_drain (s := s.setClosed.stopTimers) core.store
    unfold State.stop
    rw [same.keys, same.acquires]
    exact chained
  | sweep =>
    have same : SameCalls s (s.sweep options) := sameCalls_sweep core.store
    rw [same.keys, same.acquires]
    exact chained
  -- Every cell that a key still has is in use, so the collection finds none.
  | gcKeyState keys bank collected =>
    rcases collected with rfl | ⟨cutoff, rfl⟩
    · exact chained
    · show Chained (s.toKeyState.gcMutexes cutoff) (s.acquires.map Acquire.slot)
      rw [chained.gcMutexes_eq]
      exact chained
  | validating a acquire after e entry called phase turn =>
    exact chained_queued chained called phase turn rfl
  | returned a acquire after e entry called phase turn =>
    exact chained_queued chained called phase turn rfl
  | missed a acquire after next called phase turn absent effect =>
    obtain ⟨reached, stage, -, moved⟩ := effect.acts.moved
    rw [effect.acts.keys, moved]
    exact chained_queued chained called phase turn stage
  | discarded a acquire live next called phase effect =>
    obtain ⟨reached, stage, -, moved⟩ := effect.acts.moved
    rw [effect.acts.keys, moved]
    exact chained_running chained called (by rw [phase]; rfl) stage
  | resumed a acquire w waiter next called phase found woken effect =>
    obtain ⟨reached, stage, -, moved⟩ := effect.acts.moved
    rw [effect.acts.keys, moved]
    exact chained_running chained called (by rw [phase]; rfl) stage
  | creating a acquire answer bank called phase =>
    exact chained_running chained called (by rw [phase]; rfl) rfl
  | abandoned a acquire w waiter error called phase =>
    exact chained_running chained called (by rw [phase]; rfl) rfl
  | breakerless a acquire answer called phase =>
    exact chained_running chained called (by rw [phase]; rfl) rfl
  | delivered a acquire e called phase =>
    exact chained_deliver chained called (by rw [phase]; rfl) _
  | failed a acquire error called phase =>
    exact chained_deliver chained called (by rw [phase]; rfl) _
  | unvalidated a acquire live called phase =>
    exact chained_running chained called (by rw [phase]; rfl) rfl
  | passed a acquire live called phase =>
    exact chained_running chained called (by rw [phase]; rfl) rfl
  | refuted a acquire live called phase =>
    exact chained_running chained called (by rw [phase]; rfl) rfl
  | lateDisposeSettled a acquire called phase =>
    exact chained_running chained called (by rw [phase]; rfl) rfl
  | execRejected x exec found outstanding =>
    obtain ⟨acquire, called, -, phase⟩ := core.execs.awaited x exec found outstanding
    exact chained_running chained called (by rw [phase]; rfl) rfl
  | execLate x exec resource found outstanding =>
    obtain ⟨acquire, called, -, phase⟩ := core.execs.awaited x exec found outstanding
    exact chained_running chained called (by rw [phase]; rfl) rfl
  | inserted x exec resource found outstanding =>
    obtain ⟨acquire, called, -, phase⟩ := core.execs.awaited x exec found outstanding
    exact chained_running chained called (by rw [phase]; rfl) rfl
  | releasedAgain | releasedNone | start | emitStats | timeout | clock | drained | factoryCalled
  | factorySettled | disposeSettled | breakerChanged => exact chained

/-! ### What suspended calls rely on -/

/-- A turn of the reservation loop evicts no entry of a marked key. -/
theorem SlotEffect.respects (effect : SlotEffect options s a next) (wf : s.toStore.WellFormed)
    (pending : s.toKeyState.isPending key = true) :
    Store.Respects key s.toStore next.toStore := by
  -- A victim is spared while its key is marked, whatever it is bound to.
  cases effect with
  | evicted victim _ _ _ listed spared =>
    obtain ⟨entry, found, -⟩ := wf.listed victim listed
    refine .evict wf found fun same => ?_
    simp [nodePending, found, same, pending] at spared
  | unbounded | refused | reserved | exhausted | parked => exact .refl key _

/-- `obtain` from the orphan lookup on respects the marked keys other than its own. -/
theorem MissEffect.respects {own : κ} (effect : MissEffect options s a own next)
    (wf : s.toStore.WellFormed) (pending : s.toKeyState.isPending key = true)
    (differ : key ≠ own) : Store.Respects key s.toStore next.toStore := by
  -- A resurrection concerns its own key only.
  cases effect with
  | resurrected e => exact .resurrect e differ
  | refused => exact .refl key _
  | slot _ _ _ effect => exact effect.respects wf pending

/-- Dropping a reference respects every key. -/
theorem ReleaseEffect.respects (effect : ReleaseEffect s e next) (wf : s.toStore.WellFormed)
    (key : κ) : Store.Respects key s.toStore next.toStore := by
  -- A release lowers a count or takes an entry that is held out of the maps.
  cases effect with
  | ignored => exact .refl key _
  | dropped entry found =>
    exact .update e _ (fun _ => rfl) (fun record spent => by simp [spent]) fun _ => id
  | retired entry found =>
    have retired : Store.Respects key s.toStore
        (((s.toStore.update e (lastDrop s.now)).removeEntry e).beginDispose e) :=
      .retire wf found (lastDrop s.now) (fun _ => rfl)
        (fun record spent => by simp [lastDrop, spent]) (fun _ => rfl) fun _ => rfl
    rwa [← stampReleased_dropReference] at retired
  | freed entry found =>
    have freed : Store.Respects key s.toStore
        ((s.toStore.update e (lastDrop s.now)).idleAppend e) :=
      .free e (lastDrop s.now) (fun _ => rfl) (fun record spent => by simp [lastDrop, spent])
        fun _ => id
    rwa [← stampReleased_dropReference] at freed

/-- A drain respects every key. -/
theorem respects_drain (wf : s.toStore.WellFormed) (key : κ) :
    Store.Respects key s.toStore s.drain.toStore := by
  -- The turns compose, since respecting a key is transitive over well-formed stores.
  obtain ⟨last, waits, -, kept, -, same⟩ := drain_rule (s := s)
    (P := fun next _ => Store.Respects key s.toStore next.toStore) wf
    (fun next _ e entry here before found bound unheld => by
      refine before.trans wf (.evict here found fun same => ?_)
      exact same ▸ bound)
    (fun next _ e entry here before found bound held => before.trans wf
      ((Store.Respects.orphan found bound held).trans here (.setWaiters e _)))
    (fun next _ e entry here before found bound _ => before.trans wf
      ((Store.Respects.condemn e).trans here (.setWaiters e _)))
    (.refl key _)
  rw [same]
  exact kept.trans wf .resetIdle

/-- A sweep evicts no entry of a marked key. -/
theorem respects_sweep (wf : s.toStore.WellFormed) (pending : s.toKeyState.isPending key = true) :
    Store.Respects key s.toStore (s.sweep options).toStore := by
  -- The sweep passes over the nodes whose key is marked, and marks none itself.
  refine (sweep_rule options
    (P := fun next => next.toKeyState = s.toKeyState ∧
      Store.Respects key s.toStore next.toStore) wf ?_ (fun _ _ => id) ⟨rfl, .refl key _⟩).2.2
  rintro next node entry here ⟨keys, before⟩ found listed spared
  refine ⟨keys, before.trans wf (.evict here found fun same => ?_)⟩
  rw [nodePending, found, keys] at spared
  simp [same, pending] at spared

/-- A call in its turn is the only one of its key in its turn. -/
theorem alone_of_running (core : Core s) {acquire : Acquire κ}
    (called : s.acquires[a]? = some acquire) (running : acquire.phase.stage = .running)
    (b : Nat) (other : Acquire κ) (differ : a ≠ b) (called' : s.acquires[b]? = some other)
    (running' : other.phase.stage = .running) : other.key ≠ acquire.key :=
  -- Two running calls of one key would be one call, by the discipline of the mutex.
  fun same => differ (core.chained.alone (slot_of_called called) (slot_of_called called') running
    running' same.symm)

/-- A call whose turn has come finds no other of its key in its turn. -/
theorem alone_of_turn (core : Core s) {acquire : Acquire κ} {after : Option AcquireId}
    (called : s.acquires[a]? = some acquire) (phase : acquire.phase = .queued after)
    (turn : s.turnOf after = true) (b : Nat) (other : Acquire κ) (differ : a ≠ b)
    (called' : s.acquires[b]? = some other) (running' : other.phase.stage = .running) :
    other.key ≠ acquire.key := by
  -- Starting the call would make two of them run.
  intro same
  have found := slot_of_called called
  have started := core.chained.start found (by simp [Acquire.slot, phase, Phase.stage])
    (turnOf_settled turn)
  have other' := slot_of_called called'
  rw [← Arena.getElem?_modify_other _ (fun slot => slot.at .running) differ] at other'
  exact differ (started.alone (Arena.getElem?_modify_self _ found) other' rfl running' same.symm)

/-- The key of a call in its turn is marked. -/
theorem pending_of_running (core : Core s)
    (running : ∃ (b : Nat) (other : Acquire κ), s.acquires[b]? = some other ∧ other.key = key ∧
      other.phase.stage = .running) : s.toKeyState.isPending key = true := by
  -- A running call is open, and its key is marked for it.
  obtain ⟨b, other, called, rfl, running⟩ := running
  exact core.chained.pending_of_open (slot_of_called called)
    (by simp [Slot.isOpen, Acquire.slot, running])

/-- The key of an open call is marked. -/
theorem pending_of_called (core : Core s) {acquire : Acquire κ}
    (called : s.acquires[a]? = some acquire) (active : acquire.phase.stage ≠ .settled) :
    s.toKeyState.isPending acquire.key = true :=
  -- An open call has its part in the number of pending calls.
  core.chained.pending_of_open (slot_of_called called)
    (by simp only [Slot.isOpen, Acquire.slot, ne_eq, active, not_false_eq_true, decide_true])

/-- A lookup that skips disposed entries misses nothing in a well-formed store. -/
theorem undisposed_entries_eq_none (wf : s.toStore.WellFormed)
    (absent : s.undisposed s.entries key = none) : s.entries.get? key = none := by
  -- A bound entry is not being disposed of, so the filter drops nothing.
  cases bound : s.entries.get? key with
  | none => rfl
  | some e =>
    obtain ⟨entry, found, promised⟩ := wf.live key e bound
    simp [Store.undisposed, bound, found,
      (wf.sound e entry found).undisposed promised.undisposed] at absent

/-- A lookup that skips disposed entries misses no orphan in a well-formed store. -/
theorem undisposed_orphans_eq_none (wf : s.toStore.WellFormed)
    (absent : s.undisposed s.orphans key = none) : s.orphans.get? key = none := by
  -- An orphan is not being disposed of, so the filter drops nothing.
  cases bound : s.orphans.get? key with
  | none => rfl
  | some e =>
    obtain ⟨entry, found, promised⟩ := wf.orphaned key e bound
    simp [Store.undisposed, bound, found,
      (wf.sound e entry found).undisposed promised.undisposed] at absent

/-- What a turn of the reservation loop leaves its call with. -/
theorem SlotEffect.phases (effect : SlotEffect options s a next) (core : Core s)
    {acquire : Acquire κ} (called : s.acquires[a]? = some acquire)
    (active : acquire.phase.stage ≠ .settled)
    (absent : s.entries.get? acquire.key = none ∧ s.orphans.get? acquire.key = none)
    (alone : ∀ (b : Nat) other, a ≠ b → s.acquires[b]? = some other →
      other.phase.stage = .running → other.key ≠ acquire.key) :
    Phases next.toStore next.acquires := by
  -- The key was absent from both maps when the call came, and is so afterwards.
  have still := (effect.respects core.store (pending_of_called core called active)).absent absent
  have others (key : κ) (_ : key ≠ acquire.key) (running : ∃ (b : Nat) (other : Acquire κ),
      s.acquires[b]? = some other ∧ other.key = key ∧ other.phase.stage = .running) :=
    effect.respects core.store (pending_of_running core running)
  cases effect with
  | unbounded | reserved | evicted | parked => exact core.phases.move called still alone others
  | refused | exhausted => exact core.phases.move called trivial alone others

/-- What `obtain` from the orphan lookup on leaves its call with. -/
theorem MissEffect.phases {acquire : Acquire κ}
    (effect : MissEffect options s a acquire.key next) (core : Core s)
    (called : s.acquires[a]? = some acquire) (active : acquire.phase.stage ≠ .settled)
    (absent : s.entries.get? acquire.key = none)
    (alone : ∀ (b : Nat) other, a ≠ b → s.acquires[b]? = some other →
      other.phase.stage = .running → other.key ≠ acquire.key) :
    Phases next.toStore next.acquires := by
  -- The call finds the orphan, fails, or goes on to the reservation loop without an entry.
  have others (key : κ) (differ : key ≠ acquire.key) (running : ∃ (b : Nat) (other : Acquire κ),
      s.acquires[b]? = some other ∧ other.key = key ∧ other.phase.stage = .running) :=
    effect.respects core.store (pending_of_running core running) differ
  cases effect with
  | resurrected e bound =>
    obtain ⟨entry, found, promised⟩ := core.store.orphaned _ e bound
    exact core.phases.move called ⟨entry, found, promised.key⟩ alone others
  | refused => exact core.phases.move called trivial alone others
  | slot _ missing _ effect =>
    exact effect.phases (s := s.miss) ⟨core.store, core.chained, core.phases, core.execs⟩ called
      active ⟨absent, undisposed_orphans_eq_none core.store missing⟩ alone

/-- Every step leaves every call with what it relies on. -/
theorem Effect.phases {action : Action κ τ} (core : Core s)
    (effect : Effect options s action next) : Phases next.toStore next.acquires := by
  -- The call that acts reaches a phase that fits, and the others are respected.
  have wf := core.store
  have phases := core.phases
  -- A call that moves on without touching the store takes nothing from the others.
  have leaves {a : AcquireId} {acquire : Acquire κ} {reached : Phase}
      (called : s.acquires[a]? = some acquire) (running : acquire.phase.stage = .running)
      (fits : reached.Fits s.toStore acquire.key) :
      Phases s.toStore (s.acquires.modify a fun acquire => { acquire with phase := reached }) :=
    phases.move called fits (alone_of_running core called running) fun _ _ _ => .refl _ _
  cases effect with
  | shared key e entry bound found _ held =>
    -- The new call settles at once, and the entry it shares was held before.
    have kept : Phases (s.toStore.checkout e) s.acquires :=
      phases.of_respects core.chained fun _ _ => .checkout found fun _ => held
    have pushed : Phases (s.toStore.checkout e)
        (s.acquires ++ [⟨key, none, .fulfilled s.handles.length⟩]) :=
      kept.push (by simp [Phase.stage])
    rw [← shared_acquires] at pushed
    exact pushed
  | queued key => exact phases.push (by simp [Phase.stage])
  | released h handle next found holding effect =>
    rw [effect.sameCalls.acquires]
    exact phases.of_respects core.chained fun key _ => effect.respects wf key
  | releasedKey key e next bound effect =>
    rw [effect.sameCalls.acquires]
    exact phases.of_respects core.chained fun key _ => effect.respects wf key
  | drain =>
    rw [(sameCalls_drain wf).acquires]
    exact phases.of_respects core.chained fun key _ => respects_drain wf key
  | stop =>
    have same := sameCalls_drain (s := s.setClosed.stopTimers) wf
    unfold State.stop
    rw [same.acquires]
    exact phases.of_respects core.chained fun key _ =>
      respects_drain (s := s.setClosed.stopTimers) wf key
  | sweep =>
    rw [(sameCalls_sweep wf).acquires]
    exact phases.of_respects core.chained fun key pending => respects_sweep wf pending
  | validating a acquire after e entry called phase turn bound found unheld =>
    exact phases.move called ⟨entry, found, (wf.live_at bound found).key, unheld,
      wf.apart _ _ bound, .inl bound⟩ (alone_of_turn core called phase turn) fun _ _ _ => .refl _ _
  | returned a acquire after e entry called phase turn bound found =>
    exact phases.move called ⟨entry, found, (wf.live_at bound found).key⟩
      (alone_of_turn core called phase turn) fun _ _ _ => .refl _ _
  | missed a acquire after next called phase turn absent effect =>
    exact effect.phases core called (by simp [phase, Phase.stage])
      (undisposed_entries_eq_none wf absent) (alone_of_turn core called phase turn)
  | discarded a acquire live next called phase effect =>
    obtain ⟨-, -, -, -, absent, -⟩ := core.fits called phase
    exact effect.phases core called (by simp [phase, Phase.stage]) absent
      (alone_of_running core called (by rw [phase]; rfl))
  | resumed a acquire w waiter next called phase found woken effect =>
    have fits := core.fits called phase
    exact effect.phases core called (by simp [phase, Phase.stage]) fits
      (alone_of_running core called (by rw [phase]; rfl))
  | creating a acquire answer bank called phase =>
    have fits := core.fits called phase
    exact leaves called (by rw [phase]; rfl) fits
  | abandoned a acquire w waiter error called phase =>
    exact leaves called (by rw [phase]; rfl) trivial
  | breakerless a acquire answer called phase =>
    exact leaves called (by rw [phase]; rfl) trivial
  -- The reference is taken on the call's own key, where nobody else runs.
  | delivered a acquire e called phase =>
    obtain ⟨entry, found, same⟩ := core.fits called phase
    exact phases.move called trivial (alone_of_running core called (by rw [phase]; rfl))
      fun key differ _ => .checkout found fun other => absurd (other.symm.trans same) differ
  | failed a acquire error called phase =>
    exact leaves called (by rw [phase]; rfl) trivial
  | unvalidated a acquire live called phase =>
    exact leaves called (by rw [phase]; rfl) trivial
  | passed a acquire live called phase =>
    obtain ⟨entry, found, same, -⟩ := core.fits called phase
    exact leaves called (by rw [phase]; rfl) ⟨entry, found, same⟩
  | refuted a acquire live called phase =>
    have fits := core.fits called phase
    have refuted := fits.refuted wf
    obtain ⟨entry, found, -⟩ := fits
    exact phases.move called refuted (alone_of_running core called (by rw [phase]; rfl))
      fun key _ _ => .discard wf found
  | lateDisposeSettled a acquire called phase =>
    exact leaves called (by rw [phase]; rfl) trivial
  | execRejected x exec found outstanding =>
    obtain ⟨acquire, called, -, phase⟩ := core.execs.awaited x exec found outstanding
    exact leaves called (by rw [phase]; rfl) trivial
  | execLate x exec resource found outstanding =>
    obtain ⟨acquire, called, -, phase⟩ := core.execs.awaited x exec found outstanding
    exact leaves called (by rw [phase]; rfl) trivial
  | inserted x exec resource found outstanding =>
    obtain ⟨acquire, called, same, phase⟩ := core.execs.awaited x exec found outstanding
    refine phases.move called ?_ (alone_of_running core called (by rw [phase]; rfl))
      fun key differ _ => .insert resource s.now (same ▸ differ)
    -- The entry returned is the one just inserted.
    have fresh : ∃ entry, (s.toStore.insert exec.key resource s.now).heap[s.heap.length]? =
        some entry ∧ entry.key = acquire.key := by simp [Store.insert, same]
    exact fresh
  | disposeSettled e entry found =>
    exact phases.of_respects core.chained fun key _ =>
      (Store.Respects.finish e).trans wf (.setWaiters e fun _ => [])
  | releasedAgain | releasedNone | start | gcKeyState | emitStats | timeout | clock | drained
  | factoryCalled | factorySettled | breakerChanged => exact phases

/-! ### The execs, and the whole -/

/-- Every step keeps the pending execs matched with the calls that await them. -/
theorem Effect.execs {action : Action κ τ} (core : Core s)
    (effect : Effect options s action next) : ExecsMatch next.execs next.acquires := by
  -- An exec starts and settles together with the phase of its call.
  have matched := core.execs
  cases effect with
  | shared key e entry bound found _ held =>
    have pushed : ExecsMatch s.execs
        (s.acquires ++ [⟨key, none, .fulfilled s.handles.length⟩]) := matched.push (by simp)
    rw [← shared_acquires] at pushed
    exact pushed
  | queued key => exact matched.push (by simp)
  | released h handle next found holding effect =>
    rw [effect.sameCalls.execs, effect.sameCalls.acquires]
    exact matched
  | releasedKey key e next bound effect =>
    rw [effect.sameCalls.execs, effect.sameCalls.acquires]
    exact matched
  | drain =>
    rw [(sameCalls_drain core.store).execs, (sameCalls_drain core.store).acquires]
    exact matched
  | stop =>
    have same := sameCalls_drain (s := s.setClosed.stopTimers) core.store
    unfold State.stop
    rw [same.execs, same.acquires]
    exact matched
  | sweep =>
    rw [(sameCalls_sweep core.store).execs, (sameCalls_sweep core.store).acquires]
    exact matched
  -- A turn of the reservation loop never enters or leaves a creation.
  | missed a acquire after next called phase turn absent effect =>
    obtain ⟨reached, -, entering, moved⟩ := effect.acts.moved
    rw [effect.acts.execs, moved]
    exact matched.rephase called (by simp [phase]) entering
  | discarded a acquire live next called phase effect =>
    obtain ⟨reached, -, entering, moved⟩ := effect.acts.moved
    rw [effect.acts.execs, moved]
    exact matched.rephase called (by simp [phase]) entering
  | resumed a acquire w waiter next called phase found woken effect =>
    obtain ⟨reached, -, entering, moved⟩ := effect.acts.moved
    rw [effect.acts.execs, moved]
    exact matched.rephase called (by simp [phase]) entering
  -- A creation begins with its exec, and ends when the exec settles.
  | creating a acquire answer bank called phase => exact matched.start called (by simp [phase])
  | execRejected x exec found outstanding =>
    exact matched.finish found outstanding (by simp) (by simp)
  | execLate x exec resource found outstanding =>
    exact matched.finish found outstanding (by simp) (by simp)
  | inserted x exec resource found outstanding =>
    exact matched.finish found outstanding (by simp) (by simp)
  -- The other moves are between phases without an exec.
  | delivered a acquire e called phase => exact matched.rephase called (by simp [phase]) (by simp)
  | failed a acquire error called phase => exact matched.rephase called (by simp [phase]) (by simp)
  | validating a acquire after e entry called phase =>
    exact matched.rephase called (by simp [phase]) (by simp)
  | returned a acquire after e entry called phase =>
    exact matched.rephase called (by simp [phase]) (by simp)
  | abandoned a acquire w waiter error called phase =>
    exact matched.rephase called (by simp [phase]) (by simp)
  | breakerless a acquire answer called phase =>
    exact matched.rephase called (by simp [phase]) (by simp)
  | unvalidated a acquire live called phase =>
    exact matched.rephase called (by simp [phase]) (by simp)
  | passed a acquire live called phase => exact matched.rephase called (by simp [phase]) (by simp)
  | refuted a acquire live called phase => exact matched.rephase called (by simp [phase]) (by simp)
  | lateDisposeSettled a acquire called phase =>
    exact matched.rephase called (by simp [phase]) (by simp)
  | releasedAgain | releasedNone | start | gcKeyState | emitStats | timeout | clock | drained
  | factoryCalled | factorySettled | disposeSettled | breakerChanged => exact matched

/-- Every step keeps the invariant. -/
theorem core_step {action : Action κ τ} (core : Core s)
    (stepped : s.step options action = some next) : Core next :=
  -- The parts of the invariant are kept one by one.
  have effect := step_effect stepped
  ⟨effect.wellFormed core, effect.chained core, effect.phases core, effect.execs core⟩

/-- The invariant holds throughout every run of a pool. -/
theorem core_throughout (options : PoolOptions) (actions : List (Action κ τ)) :
    Runs.Throughout (step options) Core (init options) actions :=
  -- Every step keeps it.
  Runs.throughout_of_invariant Core (fun _ _ _ => core_step) (core_init options) actions

/-- The invariant holds wherever a run of a pool leads. -/
theorem core_run {actions : List (Action κ τ)}
    (ran : Runs.run (step options) (init options) actions = some s) : Core s :=
  -- It holds throughout, and so at the end.
  (core_throughout options actions).of_run ran

end State

end RefPool
