import RefPool.Proofs.DrainWaits
import RefPool.Proofs.Quiescence
import RefPool.Proofs.References

/-! A drain cannot be wedged: whatever it waits for ends with the last release, or is ending. -/

namespace RefPool

variable {κ τ : Type}

/-- Resolving promises resolves the listed ones, and leaves the resolved ones resolved. -/
theorem resolved_resolveAll {waits : List DisposalWait} {list : List DisposalWaitId} {i : Nat}
    {wait : DisposalWait} (found : (list.foldl (fun waits i =>
      waits.modify i fun wait => { wait with resolved := true }) waits)[i]? = some wait)
    (cause : (∃ old, waits[i]? = some old ∧ old.resolved = true) ∨ i ∈ list) :
    wait.resolved = true := by
  -- Each turn resolves the first promise left, if it is there.
  induction list generalizing waits with
  | nil =>
    obtain ⟨old, before, resolved⟩ := cause.resolve_right List.not_mem_nil
    cases found.symm.trans before
    exact resolved
  | cons first rest ih =>
    obtain ⟨old, present, -⟩ := getElem?_resolveAll found
    refine ih found ?_
    by_cases here : first = i
    · subst here
      exact .inl ⟨_, Arena.getElem?_modify_self _ present, rfl⟩
    · rcases cause with ⟨old, before, resolved⟩ | inside
      · exact .inl ⟨old, by rw [Arena.getElem?_modify_other _ _ here, before], resolved⟩
      · exact .inr ((List.mem_cons.mp inside).resolve_left (Ne.symm here))

/-- The disposal of an entry is in progress, or starts with the release of its last reference. -/
def Entry.Ending (entry : Entry κ τ) : Prop :=
  entry.disposed = false ∧
    (entry.disposing = true ∨ entry.condemned = true ∧ 0 < entry.refCount)

/-- An entry that comes to its end still does so where its disposal may have begun. -/
theorem Entry.Ending.begin {entry after : Entry κ τ} (ending : entry.Ending)
    (disposed : after.disposed = entry.disposed)
    (disposing : after.disposing = (entry.disposing || !entry.disposed)) : after.Ending :=
  -- An entry that comes to its end is not disposed of, so its disposal has begun now.
  ⟨disposed.trans ending.1, .inl (by rw [disposing, ending.1]; simp)⟩

namespace State

variable {s next : State κ τ} {e : EntryId}

/-- What a wait of a drain stands for is there: a disposal that has begun, or a promise. -/
def Grounded (s : State κ τ) : Wait → Prop
  | .ready => True
  | .disposing e => ∃ entry, s.heap[e]? = some entry ∧ entry.disposing = true
  | .disposal i => i < s.disposalWaits.length

/-- Every promise is waited for by an entry that comes to its end, and every wait is grounded. -/
structure Attends (s : State κ τ) : Prop where
  ending : ∀ (e : EntryId) entry, s.heap[e]? = some entry → entry.disposeWaiters ≠ [] →
    entry.Ending
  listed : ∀ (i : DisposalWaitId) wait, s.disposalWaits[i]? = some wait → wait.resolved = false →
    ∃ entry, s.heap[wait.entry]? = some entry ∧ i ∈ entry.disposeWaiters
  grounded : ∀ call ∈ s.drains, ∀ wait ∈ call.waits, s.Grounded wait

namespace Grounded

variable {wait : Wait}

/-- A wait stays grounded while disposals begin and promises are made. -/
theorem mono (grounded : s.Grounded wait)
    (begun : ∀ (e : EntryId) entry, s.heap[e]? = some entry → entry.disposing = true →
      ∃ after, next.heap[e]? = some after ∧ after.disposing = true)
    (more : s.disposalWaits.length ≤ next.disposalWaits.length) : next.Grounded wait := by
  -- Disposals that have begun stay so, and promises are not taken back.
  cases wait with
  | ready => trivial
  | disposing e =>
    obtain ⟨entry, found, started⟩ := grounded
    exact begun e entry found started
  | disposal i => exact Nat.lt_of_lt_of_le grounded more

/-- A wait stays grounded where one entry is assigned and no disposal is undone. -/
theorem modify (grounded : s.Grounded wait) {assign : Entry κ τ → Entry κ τ}
    (heap : next.heap = s.heap.modify e assign)
    (begun : ∀ entry, entry.disposing = true → (assign entry).disposing = true)
    (more : s.disposalWaits.length ≤ next.disposalWaits.length) : next.Grounded wait := by
  -- Its disposal had begun, or it was awaited before.
  refine grounded.mono (fun other entry found started => ?_) more
  rw [heap]
  exact Arena.exists_getElem?_modify found (fun _ => begun entry started) fun _ => started

end Grounded

/-- The waits of a drain stay grounded, and so is the one for a promise that it has just made. -/
theorem grounded_promise {waits : List Wait} {assign : Entry κ τ → Entry κ τ}
    (grounded : ∀ wait ∈ waits, s.Grounded wait) (heap : next.heap = s.heap.modify e assign)
    (begun : ∀ entry, entry.disposing = true → (assign entry).disposing = true)
    (made : next.disposalWaits = s.disposalWaits ++ [{ entry := e, resolved := false }]) :
    ∀ wait ∈ waits ++ [.disposal s.disposalWaits.length], next.Grounded wait := by
  have longer : next.disposalWaits.length = s.disposalWaits.length + 1 := by simp [made]
  intro wait inside
  -- The new wait is for the promise that was made last.
  rcases List.mem_append.mp inside with before | new
  · exact (grounded wait before).modify heap begun (by omega)
  · rw [List.mem_singleton.mp new]
    exact Nat.lt_of_lt_of_eq (Nat.lt_succ_self _) longer.symm

namespace Attends

/-- Assigning other fields of one entry keeps the promises attended. -/
theorem reassign (attends : Attends s) (e : EntryId) (assign : Entry κ τ → Entry κ τ)
    (heap : next.heap = s.heap.modify e assign)
    (ends : ∀ entry, s.heap[e]? = some entry → entry.Ending → (assign entry).Ending)
    (kept : ∀ entry, (assign entry).disposeWaiters = entry.disposeWaiters)
    (begun : ∀ entry, entry.disposing = true → (assign entry).disposing = true)
    (waits : next.disposalWaits = s.disposalWaits) (drains : next.drains = s.drains) :
    Attends next where
  -- What was waited for before is waited for now, by the same waits.
  ending := by
    intro other entry found waited
    rw [heap] at found
    rcases Arena.getElem?_modify_cases found with ⟨rfl, old, before, rfl⟩ | ⟨-, before⟩
    · rw [kept] at waited
      exact ends old before (attends.ending e old before waited)
    · exact attends.ending other entry before waited
  listed := by
    intro i wait found unresolved
    rw [waits] at found
    obtain ⟨entry, before, inside⟩ := attends.listed i wait found unresolved
    rw [heap]
    exact Arena.exists_getElem?_modify before (fun _ => by rwa [kept]) fun _ => inside
  grounded := by
    intro call inside wait member
    rw [drains] at inside
    exact (attends.grounded call inside wait member).modify heap begun
      (Nat.le_of_eq (congrArg List.length waits.symm))

/-- Nothing changes for the promises where entries, promises and drains stay as they are. -/
theorem same (attends : Attends s) (heap : next.heap = s.heap)
    (waits : next.disposalWaits = s.disposalWaits) (drains : next.drains = s.drains) :
    Attends next := by
  -- It is a reassignment that assigns nothing.
  refine attends.reassign 0 id ?_ (fun _ _ => id) (fun _ => rfl) (fun _ => id) waits drains
  rw [heap]
  exact (Arena.modify_of_fixed fun _ _ => rfl).symm

/-- A held entry that is condemned attends to the promise made for it. -/
theorem await (attends : Attends s) {entry : Entry κ τ} (assign : Entry κ τ → Entry κ τ)
    (found : s.heap[e]? = some entry) (undisposed : entry.disposed = false)
    (held : 0 < entry.refCount) (heap : next.heap = s.heap.modify e assign)
    (condemned : ∀ entry, (assign entry).condemned = true)
    (same : ∀ entry, (assign entry).disposed = entry.disposed ∧
      (assign entry).refCount = entry.refCount)
    (added : ∀ entry, (assign entry).disposeWaiters =
      entry.disposeWaiters ++ [s.disposalWaits.length])
    (begun : ∀ entry, entry.disposing = true → (assign entry).disposing = true)
    (waits : next.disposalWaits = s.disposalWaits ++ [{ entry := e, resolved := false }])
    (drains : next.drains = s.drains) : Attends next where
  ending := by
    intro other record read waited
    rw [heap] at read
    rcases Arena.getElem?_modify_cases read with ⟨rfl, old, before, rfl⟩ | ⟨-, before⟩
    · cases found.symm.trans before
      exact ⟨(same entry).1.trans undisposed, .inr ⟨condemned entry, (same entry).2 ▸ held⟩⟩
    · exact attends.ending other record before waited
  listed := by
    intro i wait read unresolved
    rw [waits] at read
    rw [heap]
    rcases Arena.getElem?_push_cases read with ⟨rfl, rfl⟩ | before
    -- The new promise is listed last by the entry it is for.
    · exact ⟨_, Arena.getElem?_modify_self assign found, by rw [added]; simp⟩
    · obtain ⟨record, present, inside⟩ := attends.listed i wait before unresolved
      refine Arena.exists_getElem?_modify present (fun _ => ?_) fun _ => inside
      rw [added]
      exact List.mem_append_left _ inside
  grounded := by
    intro call inside wait member
    rw [drains] at inside
    refine (attends.grounded call inside wait member).modify heap begun ?_
    rw [waits, List.length_append]
    exact Nat.le_add_right _ _

/-- A new entry is waited for by nobody. -/
theorem push (attends : Attends s) {fresh : Entry κ τ} (heap : next.heap = s.heap ++ [fresh])
    (none : fresh.disposeWaiters = []) (waits : next.disposalWaits = s.disposalWaits)
    (drains : next.drains = s.drains) : Attends next where
  -- Only the new entry could be unattended, and it has no waiters.
  ending := by
    intro e entry found waited
    rw [heap] at found
    rcases Arena.getElem?_push_cases found with ⟨-, rfl⟩ | before
    · exact absurd none waited
    · exact attends.ending e entry before waited
  listed := by
    intro i wait found unresolved
    rw [waits] at found
    obtain ⟨entry, before, inside⟩ := attends.listed i wait found unresolved
    exact ⟨entry, by rw [heap, Arena.getElem?_push_of_some _ before], inside⟩
  grounded := by
    intro call inside wait member
    rw [drains] at inside
    refine (attends.grounded call inside wait member).mono (fun e entry found started => ?_)
      (Nat.le_of_eq (congrArg List.length waits.symm))
    exact ⟨entry, by rw [heap, Arena.getElem?_push_of_some _ found], started⟩

/-- The end of a disposal resolves the promises of the entry. -/
theorem finish (attends : Attends s) {entry : Entry κ τ} (found : s.heap[e]? = some entry)
    (heap : next.heap = s.heap.modify e fun entry =>
      { entry with disposed := true, disposeWaiters := [] })
    (waits : next.disposalWaits = entry.disposeWaiters.foldl
      (fun waits i => waits.modify i fun wait => { wait with resolved := true }) s.disposalWaits)
    (drains : next.drains = s.drains) : Attends next where
  ending := by
    intro other record read waited
    rw [heap] at read
    rcases Arena.getElem?_modify_cases read with ⟨-, old, -, rfl⟩ | ⟨-, before⟩
    · exact absurd rfl waited
    · exact attends.ending other record before waited
  listed := by
    intro i wait read unresolved
    rw [waits] at read
    obtain ⟨old, present, same, -⟩ := getElem?_resolveAll read
    -- A promise that is still unresolved was so before, and is not the entry's.
    have still (cause : (∃ old, s.disposalWaits[i]? = some old ∧ old.resolved = true) ∨
        i ∈ entry.disposeWaiters) : False := by
      simp [resolved_resolveAll read cause] at unresolved
    have open_ : old.resolved = false := by
      by_contra ended
      exact still (.inl ⟨old, present, by simpa using ended⟩)
    obtain ⟨record, before, inside⟩ := attends.listed i old present open_
    rw [heap, same]
    refine Arena.exists_getElem?_modify before (fun here => ?_) fun _ => inside
    cases (here ▸ found).symm.trans before
    exact absurd (.inr inside) still
  grounded := by
    intro call inside wait member
    rw [drains] at inside
    refine (attends.grounded call inside wait member).modify heap (fun _ => id) ?_
    have length (list : List DisposalWaitId) (waits : List DisposalWait) : (list.foldl
        (fun waits i => waits.modify i fun wait => { wait with resolved := true })
        waits).length = waits.length := by
      induction list generalizing waits with
      | nil => rfl
      | cons first rest ih => rw [List.foldl_cons, ih, List.length_modify]
    exact Nat.le_of_eq (by rw [waits, length])

/-- An eviction keeps the promises attended. -/
theorem evict (attends : Attends s) (heap : next.heap = s.heap.modify e fun entry =>
      { entry with inIdle := false, disposing := entry.disposing || !entry.disposed })
    (waits : next.disposalWaits = s.disposalWaits) (drains : next.drains = s.drains) :
    Attends next :=
  -- The eviction assigns flags, and an entry that was ending still is.
  attends.reassign e _ heap (fun _ _ ending => ending.begin rfl rfl) (fun _ => rfl)
    (fun _ started => by simp [started]) waits drains

/-- Taking a reference keeps the promises attended. -/
theorem checkout (attends : Attends s) (heap : next.heap = s.heap.modify e fun entry =>
      { entry with
        refCount := entry.refCount + 1
        inIdle := if entry.refCount = 0 then false else entry.inIdle })
    (waits : next.disposalWaits = s.disposalWaits) (drains : next.drains = s.drains) :
    Attends next := by
  -- The count goes up, which leaves a held entry held.
  refine attends.reassign e _ heap (fun _ _ ending => ?_) (fun _ => rfl) (fun _ => id) waits drains
  exact ⟨ending.1, ending.2.imp id fun ⟨condemned, _⟩ => ⟨condemned, Nat.succ_pos _⟩⟩

end Attends

variable [DecidableEq κ] {options : PoolOptions}

/-- A turn of the reservation loop keeps the promises attended. -/
theorem SlotEffect.attends {a : AcquireId} (effect : SlotEffect options s a next)
    (attends : Attends s) : Attends next := by
  -- Only an eviction writes to the heap.
  cases effect with
  | evicted victim => exact attends.evict (Store.evict_heap s.toStore victim) rfl rfl
  | unbounded | refused | reserved | exhausted | parked => exact attends.same rfl rfl rfl

/-- `obtain` from the orphan lookup on keeps the promises attended. -/
theorem MissEffect.attends {a : AcquireId} {key : κ} (effect : MissEffect options s a key next)
    (attends : Attends s) : Attends next := by
  -- Only the reservation loop remains to be looked at.
  cases effect with
  | resurrected | refused => exact attends.same rfl rfl rfl
  | slot _ _ _ effect => exact effect.attends (attends.same rfl rfl rfl)

/-- Dropping a reference keeps the promises attended. -/
theorem ReleaseEffect.attends (effect : ReleaseEffect s e next) (attends : Attends s) :
    Attends next := by
  cases effect with
  | ignored => exact attends
  | dropped entry found undisposed shared =>
    refine attends.reassign e _ rfl (fun record present ending => ?_) (fun _ => rfl)
      (fun _ => id) rfl rfl
    cases found.symm.trans present
    exact ⟨ending.1, ending.2.imp id fun ⟨condemned, _⟩ => ⟨condemned, Nat.sub_pos_of_lt shared⟩⟩
  | retired =>
    -- The disposal begins with the release, whatever made the entry condemned.
    have heap := Store.retire_heap s.toStore e (lastDrop s.now)
    rw [← stampReleased_dropReference] at heap
    exact attends.reassign e _ heap (fun _ _ ending => ending.begin rfl rfl) (fun _ => rfl)
      (fun _ started => by simp [lastDrop, started]) rfl rfl
  | freed entry found undisposed last kept =>
    -- An entry that is not condemned is promised an end only once its disposal has begun.
    have heap := Store.free_heap s.toStore e (lastDrop s.now)
    rw [← stampReleased_dropReference] at heap
    refine attends.reassign e _ heap (fun record present ending => ?_) (fun _ => rfl)
      (fun _ => id) rfl rfl
    cases found.symm.trans present
    exact ⟨ending.1, .inl (ending.2.resolve_right (by simp [kept]))⟩

/-- A drain attends to every promise it makes, and its waits are grounded. -/
theorem attends_drain (wf : s.toStore.WellFormed) (attends : Attends s) : Attends s.drain := by
  have turns := drain_rule (s := s)
    (P := fun next waits => Attends next ∧ ∀ wait ∈ waits, next.Grounded wait) wf ?idle ?held
    ?orphan ⟨attends.same rfl rfl rfl, by simp⟩
  case idle =>
    intro s waits e entry wf ⟨attends, grounded⟩ found bound _
    have heap := Store.evict_heap s.toStore e
    refine ⟨attends.evict heap rfl rfl, fun wait inside => ?_⟩
    rcases List.mem_append.mp inside with before | new
    · exact (grounded wait before).modify heap (fun _ started => by simp [started])
        (Nat.le_refl _)
    -- A live entry has not been disposed of, so its disposal begins here.
    · rw [List.mem_singleton.mp new]
      have live := wf.live_at bound found
      have undisposed := (wf.sound e entry found).undisposed live.undisposed
      refine ⟨_, (congrArg (·[e]?) heap).trans (Arena.getElem?_modify_self _ found), ?_⟩
      simp [undisposed]
  case held =>
    intro s waits e entry wf ⟨attends, grounded⟩ found bound held
    have heap := condemnHeld_heap s e entry.key
    have undisposed := (wf.sound e entry found).undisposed (wf.live_at bound found).undisposed
    refine ⟨attends.await _ found undisposed held heap (fun _ => rfl) (fun _ => ⟨rfl, rfl⟩)
      (fun _ => rfl) (fun _ => id) rfl rfl, fun wait inside => ?_⟩
    exact grounded_promise grounded heap (fun _ => id) rfl wait inside
  case orphan =>
    intro s waits e entry wf ⟨attends, grounded⟩ found bound _
    have heap := condemnOrphan_heap s e
    have orphaned := wf.orphaned_at bound found
    have undisposed := (wf.sound e entry found).undisposed orphaned.undisposed
    refine ⟨attends.await _ found undisposed orphaned.held heap (fun _ => rfl)
      (fun _ => ⟨rfl, rfl⟩) (fun _ => rfl) (fun _ => id) rfl rfl, fun wait inside => ?_⟩
    exact grounded_promise grounded heap (fun _ => id) rfl wait inside
  obtain ⟨last, waits, -, ⟨kept, grounded⟩, -, same⟩ := turns
  rw [same]
  -- The new call waits for what the walk has collected.
  refine ⟨kept.ending, kept.listed, fun call inside wait member => ?_⟩
  rcases List.mem_append.mp inside with before | new
  · exact (kept.grounded call before wait member).mono (fun e entry found started =>
      ⟨entry, found, started⟩) (Nat.le_refl _)
  · rw [List.mem_singleton.mp new] at member
    exact (grounded wait member).mono (fun e entry found started => ⟨entry, found, started⟩)
      (Nat.le_refl _)

/-- Every step keeps the promises attended. -/
theorem Effect.attends {action : Action κ τ} (wf : s.toStore.WellFormed)
    (effect : Effect options s action next) (attends : Attends s) : Attends next := by
  cases effect with
  | shared key e =>
    exact attends.checkout (Store.checkout_heap s.toStore e) rfl rfl
  | delivered a acquire e =>
    exact attends.checkout (Store.checkout_heap s.toStore e) rfl rfl
  -- The steps that change entries have their laws, and the others change none.
  | released h handle next found holding effect => exact effect.attends (attends.same rfl rfl rfl)
  | releasedKey key e next bound effect => exact effect.attends attends
  | drain => exact attends_drain wf attends
  | stop => exact attends_drain (s := s.setClosed.stopTimers) wf (attends.same rfl rfl rfl)
  | sweep =>
    exact (sweep_rule options (P := fun s => Attends s) wf
      (fun s node _ _ attends _ _ _ => attends.evict (Store.evict_heap s.toStore node) rfl rfl)
      (fun _ _ attends => attends.same rfl rfl rfl) attends).2
  | missed a acquire after next called phase turn absent effect => exact effect.attends attends
  | discarded a acquire live next called phase effect => exact effect.attends attends
  | resumed a acquire w waiter next called phase found woken effect =>
    exact effect.attends attends
  | refuted a acquire live =>
    exact attends.evict (Store.discard_heap s.toStore live) rfl rfl
  | inserted x exec resource =>
    exact attends.push (Store.insert_heap s.toStore exec.key resource s.now) rfl rfl rfl
  | disposeSettled e entry found =>
    exact attends.finish found (finishDispose_heap options s e entry) rfl rfl
  | drained d =>
    refine ⟨attends.ending, attends.listed, fun call inside wait member => ?_⟩
    obtain ⟨i, found⟩ := List.mem_iff_getElem?.mp inside
    -- The call that fulfils waits for what it waited for.
    have before : ∃ old ∈ s.drains, old.waits = call.waits := by
      rcases Arena.getElem?_modify_cases found with ⟨rfl, old, before, rfl⟩ | ⟨-, before⟩
      · exact ⟨old, List.mem_of_getElem? before, rfl⟩
      · exact ⟨call, List.mem_of_getElem? before, rfl⟩
    obtain ⟨old, present, same⟩ := before
    exact (attends.grounded old present wait (same ▸ member)).mono
      (fun e entry found started => ⟨entry, found, started⟩) (Nat.le_refl _)
  | queued | releasedAgain | releasedNone | start | gcKeyState | emitStats | timeout | clock
  | validating | returned | abandoned | breakerless | creating | failed | unvalidated
  | passed | factoryCalled | factorySettled | execRejected | execLate | lateDisposeSettled
  | breakerChanged => exact attends.same rfl rfl rfl

omit [DecidableEq κ] in
/-- A new pool has promised nothing. -/
theorem attends_init (options : PoolOptions) : Attends (init options : State κ τ) := by
  -- There are neither entries nor promises.
  constructor <;> simp [init, Store.empty]

/-! ### The last release -/

/-- The release that drops the last reference of a condemned entry starts its disposal. -/
theorem ReleaseEffect.begins {other : EntryId} {entry after : Entry κ τ}
    (effect : ReleaseEffect s e next) (found : s.heap[other]? = some entry)
    (fresh : entry.disposed = false ∧ entry.disposing = false)
    (doomed : entry.condemned = true ∧ 0 < entry.refCount)
    (read : next.heap[other]? = some after) (gone : after.refCount = 0) :
    after.disposing = true ∧
      next.disposeCalls = s.disposeCalls ++ [(entry.resource, entry.key)] := by
  -- A reference is dropped from one entry, and the count of the others is not zero.
  have still (unchanged : s.heap[other]? = some after) : False := by
    cases found.symm.trans unchanged
    omega
  cases effect with
  | ignored => exact (still read).elim
  | dropped record present undisposed shared =>
    rcases Arena.getElem?_modify_cases read with ⟨rfl, old, before, rfl⟩ | ⟨-, before⟩
    · cases present.symm.trans before
      exact absurd gone (Nat.sub_ne_zero_of_lt shared)
    · exact (still before).elim
  | retired record present =>
    have heap := Store.retire_heap s.toStore e (lastDrop s.now)
    rw [← stampReleased_dropReference] at heap
    rcases Arena.getElem?_modify_cases ((congrArg (·[other]?) heap).symm.trans read) with
      ⟨rfl, old, before, rfl⟩ | ⟨-, before⟩
    · cases found.symm.trans before
      refine ⟨by simp [lastDrop, fresh.1], congrArg (s.disposeCalls ++ ·) ?_⟩
      -- The entry leaves its map undisposed, so its disposal is the one that starts.
      have removed := Store.removeEntry_found (s.toStore.update e (lastDrop s.now)) e
        (Arena.getElem?_modify_self (lastDrop s.now) found)
      rw [stampReleased_dropReference, Store.toDispose_fresh removed fresh.1 fresh.2]
      rfl
    · exact (still before).elim
  | freed record present undisposed last kept =>
    have heap := Store.free_heap s.toStore e (lastDrop s.now)
    rw [← stampReleased_dropReference] at heap
    rcases Arena.getElem?_modify_cases ((congrArg (·[other]?) heap).symm.trans read) with
      ⟨rfl, -⟩ | ⟨-, before⟩
    · cases found.symm.trans present
      simp [kept] at doomed
    · exact (still before).elim

/-- Whatever step leaves a condemned entry without references starts its disposal. -/
theorem Effect.begins {action : Action κ τ} {entry after : Entry κ τ} (core : Core s)
    (effect : Effect options s action next) (found : s.heap[e]? = some entry)
    (fresh : entry.disposed = false ∧ entry.disposing = false)
    (doomed : entry.condemned = true ∧ 0 < entry.refCount)
    (read : next.heap[e]? = some after) (gone : after.refCount = 0) :
    after.disposing = true ∧
      next.disposeCalls = s.disposeCalls ++ [(entry.resource, entry.key)] := by
  -- All the other steps keep the references, or take one.
  have wf := core.store
  have kept (kept : s.toStore.Kept next.toStore) : False := by
    obtain ⟨record, present, same⟩ := kept.entry e entry found
    cases read.symm.trans present
    have count := same.refCount
    omega
  -- An entry that is handed out is held afterwards.
  have taken (other : EntryId) (heap : next.heap = (s.toStore.checkout other).heap) : False := by
    rw [heap, Store.checkout_heap] at read
    rcases Arena.getElem?_modify_cases read with ⟨-, old, -, rfl⟩ | ⟨-, before⟩
    · simp at gone
    · cases found.symm.trans before
      omega
  cases effect with
  -- Only a release takes the last reference away.
  | released h handle next holding unreleased effect =>
    exact effect.begins found fresh doomed read gone
  | releasedKey key e next bound effect => exact effect.begins found fresh doomed read gone
  | shared key e => exact (taken e rfl).elim
  | delivered a acquire e => exact (taken e rfl).elim
  | drain => exact (kept (kept_drain wf)).elim
  | stop => exact (kept (kept_drain (s := s.setClosed.stopTimers) wf)).elim
  | sweep => exact (kept (kept_sweep wf)).elim
  | missed a acquire after next called phase turn absent effect => exact (kept effect.kept).elim
  | discarded a acquire live next called phase effect => exact (kept effect.kept).elim
  | resumed a acquire w waiter next called phase present woken effect =>
    exact (kept effect.kept).elim
  | refuted a acquire live => exact (kept (.discard live)).elim
  | inserted x exec resource =>
    have heap := Store.insert_heap s.toStore exec.key resource s.now
    cases (Arena.getElem?_push_of_some _ found).symm.trans
      ((congrArg (·[e]?) heap).symm.trans read)
    omega
  | disposeSettled e => exact (kept (.finish e)).elim
  | queued | releasedAgain | releasedNone | start | gcKeyState | emitStats | timeout | clock
  | validating | returned | abandoned | breakerless | creating | failed | drained | unvalidated
  | passed | factoryCalled | factorySettled | execRejected | execLate | lateDisposeSettled
  | breakerChanged => exact (kept (.refl _)).elim

/-! ### The drains -/

/-- Nothing outside keeps a drain waiting: all handles are released, all disposals have settled. -/
structure LetGo (s : State κ τ) : Prop where
  released : ∀ handle ∈ s.handles, handle.released = true
  settled : ∀ entry ∈ s.heap, entry.disposing = true → entry.disposed = true

/-- No drain is wedged, nor can be by the next step. -/
structure Unwedged (options : PoolOptions) (s : State κ τ) : Prop where
  /-- An entry that a drain waits for is being disposed of, or is condemned and held. -/
  promised : ∀ (e : EntryId) entry, s.heap[e]? = some entry → entry.disposeWaiters ≠ [] →
    entry.Ending
  /-- The step that drops its last reference starts its disposal, whichever map it is in. -/
  begins : ∀ (action : Action κ τ) next (e : EntryId) entry after,
    s.step options action = some next → s.heap[e]? = some entry → entry.disposeWaiters ≠ [] →
    entry.disposing = false → next.heap[e]? = some after → after.refCount = 0 →
    after.disposing = true ∧
      next.disposeCalls = s.disposeCalls ++ [(entry.resource, entry.key)]
  /-- Once nothing outside keeps it waiting, everything that a drain waits for has resolved. -/
  resolved : s.LetGo → ∀ call ∈ s.drains, call.waits.all s.waitResolved = true
  /-- Once the pool has nothing left to run either, no drain is pending. -/
  fulfilled : s.LetGo → Quiescent options s → ∀ call ∈ s.drains, call.fulfilled = true

omit [DecidableEq κ] in
/-- Once nothing outside keeps it waiting, every grounded wait has resolved. -/
theorem Attends.resolved {wait : Wait} (attends : Attends s)
    (counted : Counted (· ≤ ·) s.heap s.handles) (free : s.LetGo) (grounded : s.Grounded wait) :
    s.waitResolved wait = true := by
  cases wait with
  | ready => rfl
  | disposing e =>
    obtain ⟨entry, found, begun⟩ := grounded
    simpa [waitResolved, found] using free.settled entry (List.mem_of_getElem? found) begun
  | disposal i =>
    have found : s.disposalWaits[i]? = some s.disposalWaits[i] := List.getElem?_eq_getElem grounded
    simp only [waitResolved, found, Option.any_some]
    by_contra unresolved
    -- The entry would have an end to come to, though it is unheld and its disposal is over.
    obtain ⟨entry, present, inside⟩ := attends.listed i _ found (by simpa using unresolved)
    obtain ⟨undisposed, cause⟩ := attends.ending _ entry present (List.ne_nil_of_mem inside)
    have unheld := counted.unheld_of_released free.released present undisposed
    rcases cause with begun | ⟨-, held⟩
    · have ended := free.settled entry (List.mem_of_getElem? present) begun
      simp [undisposed] at ended
    · omega

/-- Where the promises are attended and the references counted, no drain is wedged. -/
theorem Attends.unwedged (attends : Attends s) (core : Core s)
    (counted : Counted (· ≤ ·) s.heap s.handles) : s.Unwedged options where
  promised := attends.ending
  begins := by
    intro action next e entry after stepped found waited idle read gone
    obtain ⟨undisposed, cause⟩ := attends.ending e entry found waited
    exact (step_effect stepped).begins core found ⟨undisposed, idle⟩
      (cause.resolve_left (by simp [idle])) read gone
  resolved := fun free call inside => List.all_eq_true.mpr fun wait member =>
    attends.resolved counted free (attends.grounded call inside wait member)
  fulfilled := by
    intro free quiet call inside
    have resolved : call.waits.all s.waitResolved = true := List.all_eq_true.mpr fun wait member =>
      attends.resolved counted free (attends.grounded call inside wait member)
    obtain ⟨d, found⟩ := List.mem_iff_getElem?.mp inside
    -- A drain that could still fulfil would be left to run.
    have idle := quiet (.drained d) rfl
    simp only [step, found, resolved, Option.bind_some] at idle
    simpa using idle

/-- In no run is a drain ever wedged. -/
theorem unwedged_throughout (options : PoolOptions) (actions : List (Action κ τ)) :
    Runs.Throughout (step options) (Unwedged options) (init options) actions :=
  -- Three invariants are carried along, and the clauses are read off them.
  (Runs.throughout_of_invariant
    (fun s => Core s ∧ Counted (· ≤ ·) s.heap s.handles ∧ Attends s)
    (fun _ _ _ ⟨core, counted, attends⟩ stepped =>
      ⟨core_step core stepped,
        (step_effect stepped).counted comparison_le core (.inr (by omega)) counted,
        (step_effect stepped).attends core.store attends⟩)
    ⟨core_init options, counted_init options, attends_init options⟩ actions).mono
    fun _ ⟨core, counted, attends⟩ => attends.unwedged core counted

/-- Two drains around the resurrection of the orphan that both of them wait for fulfil. -/
example :
    let actions : List (Action Nat Nat) :=
      [.acquire 7, .obtain 0, .create 0 .threw, .factoryCalled 0, .factorySettled 0 (some 70),
        .execSettled 0 (some 70), .deliver 0, .drain, .acquire 7, .obtain 1, .deliver 1, .drain,
        .releaseHandle 0, .releaseHandle 1, .disposeSettled 0, .drained 0, .drained 1]
    (Runs.run (step { max := 1 }) (init { max := 1 }) actions).map (fun s =>
      s.drains.map DrainCall.fulfilled) = some [true, true] := by
  decide

end State

end RefPool
