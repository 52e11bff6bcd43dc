import RefPool.Proofs.Core
import RefPool.Proofs.History

/-! Which steps bring a resource into the pool, and which step ends its disposal. -/

namespace RefPool

variable {κ τ : Type}

/-- Whose resource an entry holds, and whether its disposal has ended. -/
def Entry.standing (entry : Entry κ τ) : (τ × κ) × Bool :=
  ((entry.resource, entry.key), entry.disposed)

namespace State

/-- What a step does to the resources of the entries. -/
inductive StandingEffect (s next : State κ τ) : Action κ τ → Prop
  /-- Most steps neither insert an entry nor end a disposal. -/
  | same (action : Action κ τ) (unended : ∀ e, action ≠ .disposeSettled e)
      (late : ∀ x resource, action = .execSettled x (some resource) → s.closed = true)
      (heap : next.heap.map Entry.standing = s.heap.map Entry.standing) :
      StandingEffect s next action
  /-- An entry is inserted. -/
  | inserted (x : ExecId) (exec : Exec κ τ) (resource : τ) (found : s.execs[x]? = some exec)
      (outstanding : exec.outcome = .pending)
      (execs : next.execs =
        s.execs.modify x fun exec => { exec with outcome := .ofAnswer (some resource) })
      (heap : next.heap.map Entry.standing =
        s.heap.map Entry.standing ++ [((resource, exec.key), false)]) :
      StandingEffect s next (.execSettled x (some resource))
  /-- The disposal of an entry ends. -/
  | ended (e : EntryId) (entry : Entry κ τ) (found : s.heap[e]? = some entry)
      (started : entry.disposing = true) (unfinished : entry.disposed = false)
      (heap : next.heap = s.heap.modify e fun entry =>
        { entry with disposed := true, disposeWaiters := [] }) :
      StandingEffect s next (.disposeSettled e)

/-- Assigning other fields of an entry leaves its standing. -/
theorem standing_reassign {before after : List (Entry κ τ)} {e : EntryId}
    {assign : Entry κ τ → Entry κ τ} (heap : after = before.modify e assign)
    (same : ∀ entry, (assign entry).standing = entry.standing) :
    after.map Entry.standing = before.map Entry.standing := by
  -- The standing of the entry is carried over.
  rw [heap]
  exact Arena.map_modify_of_eq Entry.standing fun entry _ => same entry

variable [DecidableEq κ] {options : PoolOptions} {s next : State κ τ} {a : AcquireId} {key : κ}
  {e : EntryId}

/-- A turn of the reservation loop ends no disposal. -/
theorem SlotEffect.standing (effect : SlotEffect options s a next) :
    next.heap.map Entry.standing = s.heap.map Entry.standing := by
  -- Evicting begins a disposal and ends none.
  cases effect with
  | evicted victim =>
    exact standing_reassign (Store.evict_heap s.toStore victim) fun _ => rfl
  | unbounded | refused | reserved | exhausted | parked => rfl

/-- `obtain` from the orphan lookup on ends no disposal. -/
theorem MissEffect.standing (effect : MissEffect options s a key next) :
    next.heap.map Entry.standing = s.heap.map Entry.standing := by
  -- A resurrection writes to the maps only.
  cases effect with
  | resurrected | refused => rfl
  | slot _ _ _ effect => exact effect.standing

/-- Dropping a reference ends no disposal. -/
theorem ReleaseEffect.standing (effect : ReleaseEffect s e next) :
    next.heap.map Entry.standing = s.heap.map Entry.standing := by
  -- The release writes into one entry, which keeps its resource and is still undisposed.
  rcases effect.heap with ⟨-, same⟩ | ⟨entry, assign, found, undisposed, -, heap, follows, kept, -⟩
  · rw [same]
  · rw [heap]
    refine Arena.map_modify_of_eq Entry.standing fun record present => ?_
    cases found.symm.trans present
    simp only [Entry.standing, follows.key, follows.resource, undisposed, kept]

/-- A drain ends no disposal. -/
theorem standing_drain (wf : s.toStore.WellFormed) :
    s.drain.heap.map Entry.standing = s.heap.map Entry.standing := by
  -- Evicting, orphaning and condemning write other fields.
  obtain ⟨last, waits, -, kept, -, same⟩ := drain_rule (s := s)
    (P := fun next _ => next.heap.map Entry.standing = s.heap.map Entry.standing) wf
    (fun next _ e entry _ kept _ _ _ =>
      (standing_reassign (Store.evict_heap next.toStore e) fun _ => rfl).trans kept)
    (fun next _ e entry _ kept _ _ _ =>
      (standing_reassign (condemnHeld_heap next e entry.key) fun _ => rfl).trans kept)
    (fun next _ e entry _ kept _ _ _ =>
      (standing_reassign (condemnOrphan_heap next e) fun _ => rfl).trans kept)
    rfl
  rw [same]
  exact kept

/-- A sweep ends no disposal. -/
theorem standing_sweep (wf : s.toStore.WellFormed) :
    (s.sweep options).heap.map Entry.standing = s.heap.map Entry.standing := by
  -- So does each turn of the sweep.
  exact (sweep_rule options
    (P := fun next => next.heap.map Entry.standing = s.heap.map Entry.standing) wf
    (fun next node _ _ kept _ _ _ =>
      (standing_reassign (Store.evict_heap next.toStore node) fun _ => rfl).trans kept)
    (fun _ _ => id) rfl).2

/-- Every step has one of the effects on the resources of the entries. -/
theorem Effect.standing {action : Action κ τ} (wf : s.toStore.WellFormed)
    (effect : Effect options s action next) : StandingEffect s next action := by
  -- An entry joins when its exec fulfils in an open pool, and ends when `dispose` has settled.
  have same (unended : ∀ e, action ≠ .disposeSettled e)
      (unsettled : ∀ x resource, action ≠ .execSettled x (some resource))
      (heap : next.heap.map Entry.standing = s.heap.map Entry.standing) :
      StandingEffect s next action :=
    .same action unended (fun x resource settled => absurd settled (unsettled x resource)) heap
  cases effect with
  | shared key e | delivered a acquire e =>
    exact same nofun nofun (standing_reassign (Store.checkout_heap s.toStore e) fun _ => rfl)
  -- Everything else writes other fields of the entries, or none at all.
  | released h handle next found holding effect => exact same nofun nofun effect.standing
  | releasedKey key e next bound effect => exact same nofun nofun effect.standing
  | drain => exact same nofun nofun (standing_drain wf)
  | stop => exact same nofun nofun (standing_drain (s := s.setClosed.stopTimers) wf)
  | sweep => exact same nofun nofun (standing_sweep wf)
  | missed a acquire after next called phase turn absent effect =>
    exact same nofun nofun effect.standing
  | discarded a acquire live next called phase effect => exact same nofun nofun effect.standing
  | resumed a acquire w waiter next called phase found woken effect =>
    exact same nofun nofun effect.standing
  | refuted a acquire live =>
    exact same nofun nofun (standing_reassign (Store.discard_heap s.toStore live) fun _ => rfl)
  | execLate x exec resource found outstanding closed =>
    exact .same _ nofun (fun _ _ _ => closed) rfl
  | inserted x exec resource found outstanding =>
    refine .inserted x exec resource found outstanding rfl ?_
    show (s.toStore.insert exec.key resource s.now).heap.map Entry.standing = _
    rw [Store.insert_heap, List.map_append]
    rfl
  | disposeSettled e entry found started unfinished =>
    exact .ended e entry found started unfinished (finishDispose_heap options s e entry)
  | queued | releasedAgain | releasedNone | start | gcKeyState | emitStats | timeout | clock
  | validating | returned | abandoned | breakerless | creating | failed | drained | unvalidated
  | passed | factoryCalled | factorySettled | execRejected | lateDisposeSettled
  | breakerChanged => exact same nofun nofun rfl

end State

end RefPool
