import RefPool.Proofs.Waiters

/-! The ceiling holds until an orphan comes back to a full pool or a victim frees no slot. -/

namespace RefPool.State

variable {κ τ : Type} [DecidableEq κ] {options : PoolOptions} {s next : State κ τ}

/-- The live entries and the reservations stay within the bound. -/
def WithinMax (options : PoolOptions) (s : State κ τ) : Prop :=
  s.entries.size + s.reserved ≤ options.max

/-- Whether the bound is respected can be checked. -/
instance (s : State κ τ) : Decidable (s.WithinMax options) := by
  unfold WithinMax
  infer_instance

/-- The key that a step looks up among the orphans. -/
def searched (s : State κ τ) : Action κ τ → Option κ
  | .obtain a => ((s.acquires[a]?).map Acquire.key).filter fun key => !s.entries.has key
  | .discarded a => (s.acquires[a]?).map Acquire.key
  | _ => none

/-- Whether a step takes a turn of the reservation loop. -/
def contends (s : State κ τ) : Action κ τ → Bool
  | .resume a => (((s.acquires[a]?).bind fun acquire => acquire.phase.waiter).bind
      fun w => s.waiters[w]?).any fun waiter => waiter.promise = .resolved
  | action => (s.searched action).any fun key => !s.orphans.has key

/-- The entry that a full, open pool would evict still occupies its key. -/
def FreesSlot (options : PoolOptions) (s : State κ τ) : Prop :=
  s.closed = false → options.max ≤ s.entries.size + s.reserved →
    ∀ victim ∈ s.idle.find? (fun node => !s.nodePending node), ∀ entry ∈ s.heap[victim]?,
      s.entries.has entry.key = true

/-- Whether the next eviction frees a slot can be checked. -/
instance (s : State κ τ) : Decidable (s.FreesSlot options) := by
  unfold FreesSlot
  infer_instance

/--
There is room for what a step adds.

An orphan comes back to the live map below the bound only, and the entry evicted from a full pool
still occupies its key.
-/
structure RoomFor (options : PoolOptions) (s : State κ τ) (action : Action κ τ) : Prop where
  resurrection : ∀ key ∈ s.searched action, s.orphans.has key = true →
    s.entries.size + s.reserved < options.max
  eviction : s.contends action = true → s.FreesSlot options

/-- Whether there is room for what a step adds can be checked. -/
instance (s : State κ τ) (action : Action κ τ) : Decidable (s.RoomFor options action) :=
  decidable_of_iff
    ((∀ key ∈ s.searched action, s.orphans.has key = true →
        s.entries.size + s.reserved < options.max) ∧
      (s.contends action = true → s.FreesSlot options))
    ⟨fun ⟨resurrection, eviction⟩ => ⟨resurrection, eviction⟩,
      fun ⟨resurrection, eviction⟩ => ⟨resurrection, eviction⟩⟩

/-- A turn of the reservation loop stays within the bound exactly when its victim frees a slot. -/
theorem SlotEffect.ceiling_iff {a : AcquireId} (effect : SlotEffect options s a next)
    (bounded : 0 < options.max) (wf : s.toStore.WellFormed) (within : s.WithinMax options) :
    next.WithinMax options ↔ s.FreesSlot options := by
  -- A grant adds one reservation, and only an eviction may take an entry for it.
  cases effect with
  | unbounded disabled => omega
  | refused _ closed => exact ⟨fun _ opened => by simp [closed] at opened, fun _ => within⟩
  | reserved _ _ room =>
    refine ⟨fun _ _ full => by omega, fun _ => ?_⟩
    show (s.entries.size : Int) + (s.reserved + 1) ≤ options.max
    omega
  | evicted victim _ opened full listed _ first =>
    obtain ⟨entry, found, -⟩ := wf.listed victim listed
    have emptied := Store.evict_entries s.toStore victim found
    show (((s.toStore.unlink victim).beginDispose victim).entries.size : Int) + (s.reserved + 1) ≤
      options.max ↔ _
    rw [emptied]
    unfold WithinMax at within
    cases bound : s.entries.get? entry.key with
    -- The victim leaves its key, and the reservation takes its place.
    | some other =>
      have less := OrderedMap.size_delete_of_some bound
      refine ⟨fun _ _ _ node chosen record present => ?_, fun _ => by omega⟩
      cases first.symm.trans chosen
      cases found.symm.trans present
      simp [bound]
    | none =>
      -- Deleting an absent key frees nothing, and the reservation exceeds the bound.
      rw [OrderedMap.delete_of_none bound]
      refine ⟨fun fits => by omega, fun frees => ?_⟩
      obtain ⟨other, present⟩ :=
        OrderedMap.has_eq_true.mp (frees opened full victim first entry found)
      simp [bound] at present
  -- Nobody is evicted where every listed entry is in use.
  | exhausted _ _ _ busy | parked _ _ _ busy =>
    refine ⟨fun _ _ _ victim chosen => ?_, fun _ => within⟩
    have spared := List.find?_some chosen
    simp [busy victim (List.mem_of_find?_eq_some chosen)] at spared

/-- What keeps `obtain` from the orphan lookup on within the bound. -/
theorem MissEffect.ceiling_iff {a : AcquireId} {key : κ}
    (effect : MissEffect options s a key next) (bounded : 0 < options.max)
    (wf : s.toStore.WellFormed) (within : s.WithinMax options) :
    next.WithinMax options ↔
      (s.orphans.has key = true → s.entries.size + s.reserved < options.max) ∧
      (s.orphans.has key = false → s.FreesSlot options) := by
  -- The orphan adds an entry, and otherwise the reservation loop decides.
  cases effect with
  | resurrected e bound =>
    have size := OrderedMap.size_set_of_none e (wf.not_live_of_orphaned bound)
    have orphaned : s.orphans.has key = true := by simp [bound]
    show ((s.entries.set key e).size : Int) + s.reserved ≤ options.max ↔ _
    rw [size, orphaned]
    simp
    omega
  | refused absent closed =>
    have unbound := undisposed_orphans_eq_none wf absent
    exact ⟨fun _ => ⟨fun orphaned => by simp [unbound] at orphaned,
      fun _ opened => by simp [closed] at opened⟩, fun _ => within⟩
  | slot _ absent _ effect =>
    have unbound := undisposed_orphans_eq_none wf absent
    have slot : next.WithinMax options ↔ s.FreesSlot options :=
      effect.ceiling_iff bounded wf within
    have missing : s.orphans.has key = false := by simp [OrderedMap.has, unbound]
    rw [slot, missing]
    simp

/-- A step that searches no orphan and takes no turn of the loop needs no room. -/
theorem roomFor_of_neither {action : Action κ τ} (unsearched : s.searched action = none)
    (idle : s.contends action = false) : s.RoomFor options action :=
  -- Both conditions are about actions of other kinds.
  ⟨by simp [unsearched], by simp [idle]⟩

/-- A step that looks up a missing key among the orphans has room exactly as the outcome needs. -/
theorem roomFor_of_searched {action : Action κ τ} {key : κ}
    (searched : s.searched action = some key)
    (contends : s.contends action = !s.orphans.has key) :
    s.RoomFor options action ↔
      (s.orphans.has key = true → s.entries.size + s.reserved < options.max) ∧
      (s.orphans.has key = false → s.FreesSlot options) := by
  -- The key is among the orphans or not, and asks for room of one kind.
  constructor
  · rintro ⟨resurrection, eviction⟩
    exact ⟨resurrection key searched, fun absent => eviction (by simp [contends, absent])⟩
  · rintro ⟨resurrection, eviction⟩
    refine ⟨fun other same => ?_, fun going => eviction (by simpa [contends] using going)⟩
    cases searched.symm.trans same
    exact resurrection

omit [DecidableEq κ] in
/-- With no more entries and no more reservations the bound is respected as before. -/
theorem WithinMax.fewer (within : s.WithinMax options)
    (entries : next.entries.size ≤ s.entries.size) (reserved : next.reserved ≤ s.reserved) :
    next.WithinMax options := by
  -- The sum of both numbers is no larger than before.
  unfold WithinMax at within ⊢
  omega

/-- Deleting keys keeps a drain within the bound. -/
theorem withinMax_drain (wf : s.toStore.WellFormed) (within : s.WithinMax options) :
    s.drain.WithinMax options := by
  -- The turns delete keys, and the rejected waiters held no reservations.
  obtain ⟨last, waits, -, kept, -, same⟩ := drain_rule (s := s)
    (P := fun s _ => s.WithinMax options) wf
    (fun s _ e entry _ within found _ _ => by
      refine within.fewer ?_ (Int.le_refl _)
      show ((s.toStore.unlink e).beginDispose e).entries.size ≤ _
      rw [Store.evict_entries _ _ found]
      exact OrderedMap.size_delete_le s.entries entry.key)
    (fun s _ e entry _ within found _ _ => by
      refine within.fewer ?_ (Int.le_refl _)
      show (s.toStore.deleteKey e).entries.size ≤ _
      rw [Store.deleteKey_entries found]
      exact OrderedMap.size_delete_le s.entries entry.key)
    (fun _ _ _ _ _ within _ _ _ => within)
    (within.fewer (Nat.le_refl _)
      (Int.le_of_eq (Gate.rejectWaiters_reserved s.toGate .poolClosed)))
  rw [same]
  exact kept

/-- Deleting keys keeps a sweep within the bound. -/
theorem withinMax_sweep (wf : s.toStore.WellFormed) (within : s.WithinMax options) :
    (s.sweep options).WithinMax options := by
  -- Each turn deletes a key, and waking a waiter reserves nothing.
  refine (sweep_rule options (P := fun s => s.WithinMax options) wf ?_ (fun _ _ => id) within).2
  intro s node entry _ within found _ _
  refine within.fewer ?_ (Int.le_of_eq (Gate.wakeCapacityWaiter_reserved s.toGate))
  show ((s.toStore.unlink node).beginDispose node).entries.size ≤ _
  rw [Store.evict_entries _ _ found]
  exact OrderedMap.size_delete_le s.entries entry.key

/-- Dropping a reference stays within the bound. -/
theorem ReleaseEffect.withinMax {e : EntryId} (effect : ReleaseEffect s e next)
    (within : s.WithinMax options) : next.WithinMax options := by
  -- The last release deletes the key at most, or frees the entry.
  cases effect with
  | ignored | dropped => exact within
  | retired entry found =>
    refine within.fewer ?_ (Int.le_refl _)
    show ((((s.dropReference e).stampReleased e).toStore.removeEntry e).beginDispose
      e).entries.size ≤ _
    rw [stampReleased_dropReference,
      Store.discard_entries _ _ (Arena.getElem?_modify_self (lastDrop s.now) found)]
    exact OrderedMap.size_deleteBinding_le s.entries entry.key e
  | freed =>
    refine within.fewer ?_ (Int.le_of_eq (Gate.wakeCapacityWaiter_reserved s.toGate))
    show (((s.dropReference e).stampReleased e).toStore.idleAppend e).entries.size ≤ _
    rw [stampReleased_dropReference, Store.idleAppend_entries]
    exact Nat.le_refl _

/-- A step stays within the bound exactly when there is room for what it adds. -/
theorem Effect.ceiling_iff {action : Action κ τ} (bounded : 0 < options.max) (core : Core s)
    (effect : Effect options s action next) (within : s.WithinMax options) :
    next.WithinMax options ↔ s.RoomFor options action := by
  -- Steps that neither look for an orphan nor contend for a slot add nothing on balance.
  have wf := core.store
  have easy {p q : Prop} (left : p) (right : q) : p ↔ q := iff_of_true left right
  cases effect with
  | missed a acquire after next called phase turn absent effect =>
    have unbound := undisposed_entries_eq_none wf absent
    have searched : s.searched (.obtain a) = some acquire.key := by
      simp [State.searched, called, OrderedMap.has, unbound, Option.filter]
    exact (effect.ceiling_iff bounded wf within).trans
      (roomFor_of_searched searched (by simp [contends, searched])).symm
  | discarded a acquire live next called phase effect =>
    have searched : s.searched (.discarded a) = some acquire.key := by
      simp [State.searched, called]
    exact (effect.ceiling_iff bounded wf within).trans
      (roomFor_of_searched searched (by simp [contends, searched])).symm
  | resumed a acquire w waiter next called phase found woken effect =>
    have contends : s.contends (.resume a) = true := by
      simp [State.contends, called, phase, Phase.waiter, found, woken]
    refine (effect.ceiling_iff bounded wf within).trans
      ⟨fun frees => ⟨by simp [searched], fun _ => frees⟩, fun room => room.eviction contends⟩
  | abandoned a acquire w waiter error called phase found rejected =>
    exact easy within (roomFor_of_neither rfl
      (by simp [contends, called, phase, Phase.waiter, found, rejected]))
  -- The entry found is live, so its key is not looked up among the orphans.
  | validating a acquire after e entry called phase turn bound =>
    have unsearched : s.searched (.obtain a) = none := by
      simp [searched, called, OrderedMap.has, bound, Option.filter]
    exact easy within (roomFor_of_neither unsearched (by simp [contends, unsearched]))
  | returned a acquire after e entry called phase turn bound =>
    have unsearched : s.searched (.obtain a) = none := by
      simp [searched, called, OrderedMap.has, bound, Option.filter]
    exact easy within (roomFor_of_neither unsearched (by simp [contends, unsearched]))
  | shared key e =>
    refine easy (within.fewer ?_ (Int.le_refl _)) (roomFor_of_neither rfl rfl)
    show (s.toStore.checkout e).entries.size ≤ _
    exact Nat.le_of_eq (by rw [Store.checkout_entries])
  | delivered a acquire e =>
    refine easy (within.fewer ?_ (Int.le_refl _)) (roomFor_of_neither rfl rfl)
    show (s.toStore.checkout e).entries.size ≤ _
    exact Nat.le_of_eq (by rw [Store.checkout_entries])
  | released h handle next found holding effect =>
    exact easy (effect.withinMax within) (roomFor_of_neither rfl rfl)
  | releasedKey key e next bound effect =>
    exact easy (effect.withinMax within) (roomFor_of_neither rfl rfl)
  | drain => exact easy (withinMax_drain wf within) (roomFor_of_neither rfl rfl)
  | stop =>
    exact easy (withinMax_drain (s := s.setClosed.stopTimers) wf (within.fewer (Nat.le_refl _)
      (Int.le_of_eq (Gate.rejectWaiters_reserved s.toGate .poolClosed))))
      (roomFor_of_neither rfl rfl)
  | sweep => exact easy (withinMax_sweep wf within) (roomFor_of_neither rfl rfl)
  | timeout w =>
    exact easy (within.fewer (Nat.le_refl _)
      (Int.le_of_eq (Gate.settleWaiter_reserved s.toGate w _))) (roomFor_of_neither rfl rfl)
  -- These steps give a reservation back.
  | breakerless a | execRejected x exec | execLate x exec =>
    refine easy (within.fewer (Nat.le_refl _) ?_) (roomFor_of_neither rfl rfl)
    show s.toGate.releaseReservation.reserved ≤ _
    rw [Gate.releaseReservation_reserved]
    omega
  | refuted a acquire live called phase =>
    obtain ⟨entry, found, -⟩ := core.fits called phase
    refine easy (within.fewer ?_ (Int.le_refl _)) (roomFor_of_neither rfl rfl)
    show ((s.toStore.removeEntry live).beginDispose live).entries.size ≤ _
    rw [Store.discard_entries _ _ found]
    exact OrderedMap.size_deleteBinding_le s.entries entry.key live
  -- The new entry takes the place of its reservation.
  | inserted x exec resource =>
    refine easy ?_ (roomFor_of_neither rfl rfl)
    have larger := OrderedMap.size_set_le s.entries exec.key s.heap.length
    have set : (s.toStore.insert exec.key resource s.now).entries =
        s.entries.set exec.key s.heap.length := by simp [Store.insert]
    unfold WithinMax at within ⊢
    show ((s.toStore.insert exec.key resource s.now).entries.size : Int) + (s.reserved - 1) ≤ _
    rw [set]
    omega
  | queued | releasedAgain | releasedNone | start | gcKeyState | emitStats | clock | creating
  | failed | drained | unvalidated | passed | factoryCalled | factorySettled | disposeSettled
  | lateDisposeSettled | breakerChanged =>
    exact easy within (roomFor_of_neither rfl rfl)

/-- A bounded pool stays within its bound throughout a run exactly when there is always room. -/
theorem withinMax_iff (options : PoolOptions) (bounded : 0 < options.max)
    (actions : List (Action κ τ)) :
    Runs.Throughout (step options) (WithinMax options) (init options) actions ↔
      Runs.Guarded (step options) (RoomFor options) (init options) actions := by
  -- The invariant of every run lets each step be judged on its own.
  have start : (init options : State κ τ).WithinMax options := by
    show (0 : Int) + 0 ≤ options.max
    omega
  constructor
  · exact Runs.Throughout.guarded (fun _ _ _ => core_step)
      (fun s action next core within stepped after =>
        ((step_effect stepped).ceiling_iff bounded core within).mp after) (core_init options)
  · intro guarded
    have kept := guarded.throughout (fun s => Core s ∧ s.WithinMax options)
      (fun s action next ⟨core, within⟩ room stepped => ⟨core_step core stepped,
        ((step_effect stepped).ceiling_iff bounded core within).mpr room⟩)
      ⟨core_init options, start⟩
    exact kept.mono fun s ⟨_, within⟩ => within

/-- A run in which an orphan comes back to a pool that has room for it. -/
theorem withinMax_iff_resurrected :
    let options : PoolOptions := { max := 1 }
    let create : List (Action Nat Nat) :=
      [.acquire 7, .obtain 0, .create 0 .threw, .factoryCalled 0, .factorySettled 0 (some 70),
        .execSettled 0 (some 70), .deliver 0]
    Runs.Throughout (step options) (WithinMax options) (init options)
      (create ++ [.drain, .acquire 7, .obtain 1, .deliver 1]) :=
  -- The orphan is searched while the pool has no other entry.
  (withinMax_iff _ (by decide) _).mpr (by decide)

/-- After a drain and a start another key takes the slot before the orphan comes back. -/
theorem withinMax_overfull :
    let options : PoolOptions := { max := 1 }
    let create (key a : Nat) : List (Action Nat Nat) :=
      [.acquire key, .obtain a, .create a .threw, .factoryCalled a, .factorySettled a (some a),
        .execSettled a (some a), .deliver a]
    ¬ Runs.Throughout (step options) (WithinMax options) (init options)
      (create 7 0 ++ [.drain, .start] ++ create 8 1 ++ [.acquire 7, .obtain 2]) := by
  -- The revived orphan is the second entry of a pool that allows one.
  decide

end RefPool.State
