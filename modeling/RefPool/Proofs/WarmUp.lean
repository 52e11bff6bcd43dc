import RefPool.Proofs.Holdings
import RefPool.Proofs.Workers

/-! `warm` comes to every key once, whatever fails, and has nothing left when it fulfils. -/

namespace RefPool

variable {κ τ : Type}

/-- Whether a step is one of the call of `warm`, once it has its keys. -/
def WarmAction.isOwn : WarmAction κ τ → Bool
  | .acquired _ | .next _ | .fulfil => true
  | .pool _ | .warm _ | .listed _ => false

/-- How many steps a worker takes at most, up to the one by which it goes for its next key. -/
def WarmWorker.left (perKey : Int) : WarmWorker κ → Nat
  | .acquiring _ handles _ => (perKey - handles.length).toNat + 1
  | .warmed => 1
  | .finished => 0

namespace Warming

variable [DecidableEq κ] {options : PoolOptions} {prewarm : Option (PrewarmStrategy κ)}
  {s next : Warming κ τ}

/-- How many steps of its own the call of `warm` takes at most. -/
def remaining (s : Warming κ τ) : Nat :=
  s.queue.length * (s.perKey.toNat + 1) + (s.workers.map (WarmWorker.left s.perKey)).sum +
    match s.phase with
    | .fulfilled => 0
    | .idle | .listing _ | .running | .rejected => 1

/-- A worker is held up by a call of `acquire` that has not settled. -/
def HeldUp (s : Warming κ τ) (worker : WarmWorker κ) : Prop :=
  ∃ key handles a, worker = .acquiring key handles a ∧ ∀ outcome, ¬s.pool.SettlesWith a outcome

/-- The keys are all warmed, by so many workers at a time, and the handles are given back. -/
structure Complete (options : PoolOptions) (prewarm : Option (PrewarmStrategy κ))
    (s : Warming κ τ) : Prop where
  /-- The keys are taken in their order, each once. -/
  taken : s.started ++ s.queue = s.keys
  /-- A key that was taken is warmed once, or in progress. -/
  shared : (s.warmed.map Warmed.key ++ s.inProgress).Perm s.started
  /-- A key is done when it has all its handles, or when one could not be had. -/
  whole : ∀ done ∈ s.warmed, done.Whole s.perKey
  bounded : s.inProgress.length ≤ s.workers.length ∧
    (s.workers.length : Int) ≤ min s.concurrency s.keys.length
  /-- No worker waits for anything but its own call of `acquire`. -/
  goesOn : ∀ (w : Nat) worker, s.workers[w]? = some worker → worker = .finished ∨
    s.HeldUp worker ∨ (s.step options prewarm (.acquired w)).isSome ∨
      (s.step options prewarm (.next w)).isSome
  ends : s.phase = .running → (∀ worker ∈ s.workers, worker = .finished) →
    (s.step options prewarm .fulfil).isSome
  /-- Nor does the call of `warm` go on for ever. -/
  progress : ∀ action next, s.step options prewarm action = some next → action.isOwn = true →
    next.remaining < s.remaining
  fulfilled : s.phase = .fulfilled → (s.warmed.map Warmed.key).Perm s.keys
  /-- No handle is released twice, and when `warm` fulfils each was released. -/
  once : s.releases.Nodup
  returned : s.phase = .fulfilled → ∀ a ∈ s.asked,
    (∃ error, s.pool.SettlesWith a (.error error)) ∨
      ∃ h, s.pool.SettlesWith a (.ok h) ∧ s.releases.count h = 1 ∧ s.pool.Released h

omit [DecidableEq κ] in
/-- A worker that goes on has that much less to do. -/
theorem sum_setWorker {w : Nat} {old : WarmWorker κ} (new : WarmWorker κ)
    (found : s.workers[w]? = some old) :
    ((s.setWorker w new).workers.map (WarmWorker.left s.perKey)).sum + old.left s.perKey =
      (s.workers.map (WarmWorker.left s.perKey)).sum + new.left s.perKey :=
  -- One summand changes.
  Arena.sum_modify (fun _ => new) (WarmWorker.left s.perKey) found

/-- Every step of the call of `warm` brings it closer to its end. -/
theorem Effect.progress {action : WarmAction κ τ} (effect : Effect options prewarm s action next)
    (sound : Sound s) (own : action.isOwn = true) : next.remaining < s.remaining := by
  -- The worker that goes on has less to do, and nobody has more.
  have positive := sound.positive
  cases effect with
  | pool | nothing | asking | begun | listed | refused => cases own
  | more w key handles a h found given short =>
    have less := sum_setWorker (s.ask key (handles ++ [h])).1 found
    simp only [List.length_append, List.length_singleton] at short
    simp only [ask, WarmWorker.left, List.length_append, List.length_singleton] at less
    simp only [remaining, ask, setWorker] at less ⊢
    omega
  | warmed w key handles a h found given enough =>
    have short := sound.short key handles a (List.mem_of_getElem? found)
    have less := sum_setWorker .warmed found
    simp only [remaining, conclude, setWorker, WarmWorker.left] at less ⊢
    omega
  | failed w key handles a error found failed =>
    have short := sound.short key handles a (List.mem_of_getElem? found)
    have less := sum_setWorker .warmed found
    simp only [remaining, conclude, setWorker, WarmWorker.left] at less ⊢
    omega
  | taken w key rest found queue =>
    -- The key that is taken was good for one step more than is left of it.
    have less := sum_setWorker (.acquiring key [] s.pool.acquires.length) found
    simp only [remaining, ask, setWorker, WarmWorker.left, queue, List.length_cons,
      Nat.succ_mul] at less ⊢
    simp only [List.length_nil] at less
    omega
  | left w found queue =>
    have less := sum_setWorker .finished found
    simp only [remaining, setWorker, WarmWorker.left] at less ⊢
    omega
  | fulfilled running done => simp [remaining, running]

/-- A worker goes on, or it has finished, or it is held up by its call of `acquire`. -/
theorem finished_or_goesOn {w : Nat} {worker : WarmWorker κ} (found : s.workers[w]? = some worker) :
    worker = .finished ∨ s.HeldUp worker ∨ (s.step options prewarm (.acquired w)).isSome ∨
      (s.step options prewarm (.next w)).isSome := by
  -- Only a worker that awaits a call can be held up.
  cases worker with
  | finished => exact .inl rfl
  | warmed => exact .inr (.inr (.inr (by simp [step, found])))
  | acquiring key handles a =>
    by_cases settles : ∃ outcome, s.pool.SettlesWith a outcome
    · obtain ⟨outcome, acquire, called, settled⟩ := settles
      exact .inr (.inr (.inl (by simp [step, found, called, settled])))
    · exact .inr (.inl ⟨key, handles, a, rfl, fun outcome settled => settles ⟨outcome, settled⟩⟩)

omit [DecidableEq κ] in
/-- When all workers have finished nothing is in progress, awaited or held. -/
theorem idle_of_finished (done : ∀ worker ∈ s.workers, worker = .finished) :
    s.inProgress = [] ∧ s.awaited = [] ∧ s.held = [] := by
  -- What a finished worker has is nothing.
  have nothing {β : Type} (f : WarmWorker κ → List β) (none : f .finished = []) :
      s.workers.flatMap f = [] :=
    List.flatMap_eq_nil_iff.mpr fun worker inside => (done worker inside).symm ▸ none
  exact ⟨nothing _ rfl, nothing _ rfl, nothing _ rfl⟩

omit [DecidableEq κ] in
/-- Each worker is at one key at most. -/
theorem length_inProgress_le (s : Warming κ τ) : s.inProgress.length ≤ s.workers.length := by
  -- By induction on the workers, each of which has one key or none.
  rw [inProgress]
  induction s.workers with
  | nil => exact Nat.le_refl 0
  | cons worker rest ih =>
    have one : worker.keys.length ≤ 1 := by cases worker <;> simp [WarmWorker.keys]
    rw [List.flatMap_cons, List.length_append, List.length_cons]
    omega

/-- What holds between the steps is what `warm` promises. -/
theorem Sound.complete (sound : Sound s) : Complete options prewarm s where
  taken := sound.taken
  shared := sound.shared
  whole := sound.whole
  bounded := ⟨s.length_inProgress_le, Int.le_of_eq sound.crew⟩
  goesOn := fun _ _ found => finished_or_goesOn found
  -- Each clause is read off the invariant; when all is done nobody has a key any more.
  ends := by
    intro running done
    have all : s.workers.all WarmWorker.isFinished = true :=
      List.all_eq_true.mpr fun worker inside => (done worker inside).symm ▸ rfl
    simp [step, running, all]
  progress := fun _ _ stepped own => (effect_of_step stepped).progress sound own
  fulfilled := by
    intro fulfilled
    have shared := sound.shared
    have taken := sound.taken
    rw [(idle_of_finished (sound.rested fulfilled).2).1, List.append_nil] at shared
    rw [(sound.rested fulfilled).1, List.append_nil] at taken
    exact taken ▸ shared
  once := (List.nodup_append.mp sound.account.once).2.1
  returned := by
    intro fulfilled a mine
    obtain ⟨-, awaited, held⟩ := idle_of_finished (sound.rested fulfilled).2
    have account := sound.account
    rw [awaited, held, List.nil_append] at account
    rcases account.settled a mine List.not_mem_nil with failed | ⟨h, inside, given⟩
    · exact .inl failed
    · exact .inr ⟨h, given, List.count_eq_one_of_mem account.once inside, sound.flagged h inside⟩

/-! ### The handles that a key gives back -/

/-- The handles that `warmKey` is about to release, if it is done with its key. -/
def returning (s : Warming κ τ) (w : Nat) : List HandleId :=
  match s.workers[w]? with
  | some (.acquiring _ handles a) =>
    match (s.pool.acquires[a]?).bind fun acquire => acquire.phase.settlement with
    | some (.ok h) => if (handles ++ [h]).length < s.perKey then [] else handles ++ [h]
    | some (.error _) => handles
    | none => []
  | _ => []

/-- Whether a handle is on an entry that was not disposed of, or that counts no reference. -/
def isReturnable (pool : State κ τ) (h : HandleId) : Bool :=
  (pool.handles[h]?).all fun handle => (pool.heap[handle.entry]?).all fun entry =>
    !entry.disposed || entry.refCount = 0

/-- No handle is given back on an entry that was disposed of while it counts references. -/
def InTime (s : Warming κ τ) : WarmAction κ τ → Prop
  | .acquired w => ∀ h ∈ s.returning w, isReturnable s.pool h = true
  | _ => True

/-- Whether the handles of a key are given back in time can be checked. -/
instance (s : Warming κ τ) (action : WarmAction κ τ) : Decidable (s.InTime action) := by
  unfold InTime
  split <;> infer_instance

/-- Nobody drops a reference by its key. -/
def HandlesOnly (_ : Warming κ τ) : WarmAction κ τ → Prop
  | .pool (.release _) => False
  | _ => True

/-- Whether an action drops a reference by its key can be checked. -/
instance (s : Warming κ τ) (action : WarmAction κ τ) : Decidable (s.HandlesOnly action) := by
  unfold HandlesOnly
  split <;> infer_instance

end Warming

/-- A pool that is warmed, with the handles that gave their references back. -/
structure TrackedWarming (κ τ : Type) where
  warming : Warming κ τ
  /-- Whether a handle was released before its entry was disposed of. -/
  returned : HandleId → Bool

namespace TrackedWarming

variable [DecidableEq κ] {options : PoolOptions} {prewarm : Option (PrewarmStrategy κ)}
  {s next : TrackedWarming κ τ}

/-- A new pool, of which no handle was issued. -/
def init (options : PoolOptions) : TrackedWarming κ τ := ⟨.init options, fun _ => false⟩

/-- Whether a handle is released in a step, on an entry that was not disposed of. -/
def returns (pool next : State κ τ) (h : HandleId) : Bool :=
  (pool.handles[h]?).any fun handle =>
    !handle.released && (next.handles[h]?).any Handle.released &&
      (pool.heap[handle.entry]?).any fun entry => !entry.disposed

/-- Go on to what a step leads to, and note which handles give their references back in it. -/
def goTo (s : TrackedWarming κ τ) (next : Warming κ τ) : TrackedWarming κ τ :=
  ⟨next, fun h => s.returned h || returns s.warming.pool next.pool h⟩

/-- Take a step of the pool that is warmed. -/
def step (options : PoolOptions) (prewarm : Option (PrewarmStrategy κ)) (s : TrackedWarming κ τ)
    (action : WarmAction κ τ) : Option (TrackedWarming κ τ) :=
  (s.warming.step options prewarm action).map s.goTo

/-- Whether a handle counts no longer: `warm` released it, or it gave its reference back. -/
def isGone (s : TrackedWarming κ τ) (h : HandleId) : Bool :=
  s.returned h || s.warming.releases.contains h

/-- How many handles others hold on an entry, or released when it had been disposed of. -/
def others (s : TrackedWarming κ τ) (e : EntryId) : Nat :=
  holding s.warming.pool.handles (fun h => s.returned h || s.warming.owns h) e

/-- Every reference is that of a handle, and those of `warm` are gone when it fulfils. -/
structure Leaves (r : Nat → Nat → Prop) (s : TrackedWarming κ τ) : Prop where
  counts : ∀ (e : Nat) entry, s.warming.pool.heap[e]? = some entry →
    r entry.refCount (holding s.warming.pool.handles s.isGone e)
  nothing : s.warming.phase = .fulfilled →
    ∀ (e : Nat) entry, s.warming.pool.heap[e]? = some entry → r entry.refCount (s.others e)

/-- The invariant of the record: only handles that were released are noted. -/
structure Sound (s : TrackedWarming κ τ) : Prop where
  warming : s.warming.Sound
  noted : ∀ h, s.returned h = true → s.warming.pool.Released h

omit [DecidableEq κ] in
/-- A handle that gives its reference back in a step is released in it. -/
theorem released_of_returns {pool next : State κ τ} {h : HandleId}
    (returned : returns pool next h = true) : next.Released h ∧ ¬pool.Released h := by
  -- The flag was down before the step and is up after it.
  obtain ⟨handle, issued, flags⟩ := (Option.any_eq_true _ _).mp returned
  simp only [Bool.and_eq_true, Bool.not_eq_true'] at flags
  obtain ⟨⟨holding, after⟩, -⟩ := flags
  obtain ⟨later, present, flag⟩ := (Option.any_eq_true _ _).mp after
  refine ⟨⟨later, present, flag⟩, fun released => ?_⟩
  have spent := released.released_eq_true issued
  rw [holding] at spent
  cases spent

/-- Nothing is noted of a new pool. -/
theorem sound_init (options : PoolOptions) : Sound (init options : TrackedWarming κ τ) :=
  -- Nothing was returned yet.
  ⟨Warming.sound_init options, fun _ noted => by cases noted⟩

/-- A step is one of the call of `warm` or of the pool, and the record goes with it. -/
theorem effect_of_step {action : WarmAction κ τ}
    (stepped : s.step options prewarm action = some next) :
    ∃ warming, Warming.Effect options prewarm s.warming action warming ∧
      next = s.goTo warming := by
  -- The record is computed from the step alone.
  obtain ⟨warming, taken, same⟩ := Option.map_eq_some_iff.mp stepped
  exact ⟨warming, Warming.effect_of_step taken, same.symm⟩

/-- Every step keeps the record sound. -/
theorem Sound.step {action : WarmAction κ τ} (sound : Sound s)
    (stepped : s.step options prewarm action = some next) : Sound next := by
  obtain ⟨warming, effect, rfl⟩ := effect_of_step stepped
  refine ⟨effect.sound sound.warming, fun h noted => ?_⟩
  rcases Bool.or_eq_true_iff.mp noted with before | new
  · -- A handle that is released stays so.
    exact (effect.pool_kept (P := fun pool => Core pool ∧ pool.Released h)
      sound.warming.toWorking
      (fun pool action next stepped kept =>
        ⟨State.core_step kept.1 stepped, kept.2.step kept.1 stepped⟩)
      ⟨sound.warming.core, sound.noted h before⟩).2
  · exact (released_of_returns new).1

variable {r : Nat → Nat → Prop} {warming : Warming κ τ}

omit [DecidableEq κ] in
/-- A handle that was not released in a step gave no reference back. -/
theorem returns_eq_false {pool next : State κ τ} {h : HandleId}
    (kept : next.Released h → pool.Released h) : returns pool next h = false := by
  -- A handle that gave its reference back was released in the step.
  cases returned : returns pool next h with
  | false => rfl
  | true =>
    obtain ⟨after, before⟩ := released_of_returns returned
    exact absurd (kept after) before

omit [DecidableEq κ] in
/-- Where no handle is released, none is gone that was not. -/
theorem isGone_of_quiet (releases : warming.releases = s.warming.releases)
    (quiet : ∀ h, warming.pool.Released h → s.warming.pool.Released h) :
    (s.goTo warming).isGone = s.isGone := by
  -- Neither of the two records gets a handle.
  funext h
  simp [isGone, goTo, returns_eq_false (quiet h), releases]

/-- What calls of `acquire` lead to: the comparison is kept, and no handle is released. -/
structure Quiet (r : Nat → Nat → Prop) (s : TrackedWarming κ τ) (pool : State κ τ) : Prop where
  core : Core pool
  attributed : Attributed r pool.heap pool.handles s.isGone
  released : ∀ h, pool.Released h → s.warming.pool.Released h

/-- A further call of `acquire` keeps the comparison, and releases nothing. -/
theorem Quiet.acquire {pool : State κ τ} (quiet : Quiet r s pool) (comparison : Comparison r)
    (key : κ) : Quiet r s (pool.acquire key) := by
  -- The call is a step of the pool, which releases nothing.
  have stepped : pool.step { max := 0 } (.acquire key) = some (pool.acquire key) := rfl
  have references := (State.step_effect stepped).references quiet.core
  exact
    { core := State.core_step quiet.core stepped
      attributed := references.attributed comparison quiet.attributed (by simp) (.inl trivial)
      released := fun h released =>
        quiet.released h (State.released_of_step quiet.core stepped released (by simp)) }

/-- No other handle is gone then. -/
theorem Quiet.goTo (quiet : Quiet r s warming.pool)
    (releases : warming.releases = s.warming.releases) :
    Attributed r warming.pool.heap warming.pool.handles (s.goTo warming).isGone := by
  -- Nothing new is recorded as gone.
  rw [isGone_of_quiet releases quiet.released]
  exact quiet.attributed

/-- A handle of `warm` that is about to be released counts, and its release can be counted. -/
def Ready (pool : State κ τ) (h : HandleId) : Prop :=
  ∃ handle, pool.handles[h]? = some handle ∧ handle.released = false ∧
    ∀ entry, pool.heap[handle.entry]? = some entry → entry.disposed = true → entry.refCount = 0

/-- The release of one handle leaves the others ready. -/
theorem Ready.release {pool next : State κ τ} {h other : HandleId} (ready : Ready pool other)
    (apart : other ≠ h) {handle : Handle}
    (effect : State.ReleaseEffect
      { pool with
        handles := pool.handles.modify h fun handle => { handle with released := true } }
      handle.entry next) : Ready next other := by
  obtain ⟨its, issued, holding, inTime⟩ := ready
  refine ⟨its, ?_, holding, fun entry found disposed => ?_⟩
  · rw [effect.sameCalls.handles, Arena.getElem?_modify_other _ _ (Ne.symm apart)]
    exact issued
  · -- What is disposed of by now was so before, with the same count.
    exact inTime entry ((effect.heap_disposed disposed).mp found) disposed

/-- When `warm` has fulfilled, the handles that count are those of others. -/
theorem Sound.leaves (sound : Sound s)
    (attributed : Attributed r s.warming.pool.heap s.warming.pool.handles s.isGone) :
    Leaves r s where
  counts := attributed.counts
  nothing := by
    intro fulfilled e entry found
    obtain ⟨-, awaited, held⟩ := Warming.idle_of_finished (sound.warming.rested fulfilled).2
    have account := sound.warming.account
    rw [awaited, held, List.nil_append] at account
    -- The handles that `warm` has released are all that it was given.
    have same : (fun h => s.returned h || s.warming.owns h) = s.isGone := by
      funext h
      have own : s.warming.owns h = s.warming.releases.contains h := by
        rw [Bool.eq_iff_iff, List.contains_iff_mem, Warming.owns_iff]
        constructor
        · rintro ⟨a, mine, given⟩
          rcases account.settled a mine List.not_mem_nil with ⟨error, failed⟩ | ⟨h', inside, given'⟩
          · cases given.unique failed
          · cases given.unique given'
            exact inside
        · intro inside
          obtain ⟨a, mine, -, given⟩ := account.given h inside
          exact ⟨a, mine, given⟩
      rw [isGone, own]
    have count := attributed.counts e entry found
    rwa [others, same]

/-- The creation of an entry behind the call of `acquire` and of `exec` with the same number. -/
def creation (a : Nat) (resource : Option Nat) : List (WarmAction Nat Nat) :=
  [.pool (.obtain a), .pool (.create a .threw), .pool (.factoryCalled a),
    .pool (.factorySettled a resource), .pool (.execSettled a resource), .pool (.deliver a)]

end TrackedWarming

end RefPool
