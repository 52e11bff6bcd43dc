import RefPool.Proofs.History

/-! What a drain waits for, and that its waits end with the disposals they stand for. -/

namespace RefPool

variable {κ τ : Type}

/-- A promise made by `awaitDisposal` is listed by its own entry and resolves with its disposal. -/
structure WaitsSound (heap : List (Entry κ τ)) (waits : List DisposalWait) : Prop where
  listed : ∀ (e : Nat) entry, heap[e]? = some entry → ∀ i ∈ entry.disposeWaiters,
    ∃ wait, waits[i]? = some wait ∧ wait.entry = e
  resolved : ∀ (i : Nat) wait, waits[i]? = some wait → wait.resolved = true →
    ∃ entry, heap[wait.entry]? = some entry ∧ entry.disposed = true

namespace WaitsSound

variable {heap next : List (Entry κ τ)} {waits : List DisposalWait} {e : EntryId}

/-- Assigning other fields of an entry keeps the promises. -/
theorem reassign (sound : WaitsSound heap waits) (e : EntryId) (assign : Entry κ τ → Entry κ τ)
    (same : next = heap.modify e assign)
    (kept : ∀ entry, (assign entry).disposeWaiters = entry.disposeWaiters)
    (ended : ∀ entry, (assign entry).disposed = entry.disposed) : WaitsSound next waits where
  -- The promises are listed where they were, and a disposed entry stays disposed.
  listed := by
    intro other entry found i inside
    rw [same] at found
    rcases Arena.getElem?_modify_cases found with ⟨rfl, old, before, rfl⟩ | ⟨-, before⟩
    · rw [kept] at inside
      exact sound.listed e old before i inside
    · exact sound.listed other entry before i inside
  resolved := by
    intro i wait found resolved
    obtain ⟨entry, before, disposed⟩ := sound.resolved i wait found resolved
    rw [same]
    exact Arena.exists_getElem?_modify before (fun _ => (ended entry).trans disposed)
      fun _ => disposed

/-- A new entry lists no promise. -/
theorem push (sound : WaitsSound heap waits) {fresh : Entry κ τ}
    (none : fresh.disposeWaiters = []) : WaitsSound (heap ++ [fresh]) waits where
  -- The older entries keep their addresses.
  listed := by
    intro e entry found i inside
    rcases Arena.getElem?_push_cases found with ⟨-, rfl⟩ | before
    · simp [none] at inside
    · exact sound.listed e entry before i inside
  resolved := by
    intro i wait found resolved
    obtain ⟨entry, before, disposed⟩ := sound.resolved i wait found resolved
    exact ⟨entry, Arena.getElem?_push_of_some _ before, disposed⟩

/-- A new promise is listed by the entry it waits for. -/
theorem await (sound : WaitsSound heap waits) (assign : Entry κ τ → Entry κ τ)
    (same : next = heap.modify e assign)
    (added : ∀ entry, (assign entry).disposeWaiters = entry.disposeWaiters ++ [waits.length])
    (ended : ∀ entry, (assign entry).disposed = entry.disposed) :
    WaitsSound next (waits ++ [{ entry := e, resolved := false }]) where
  listed := by
    intro other record read i inside
    rw [same] at read
    have older {old : Entry κ τ} (before : heap[other]? = some old)
        (inside : i ∈ old.disposeWaiters) : ∃ wait,
          (waits ++ [{ entry := e, resolved := false }])[i]? = some wait ∧ wait.entry = other := by
      obtain ⟨wait, present, own⟩ := sound.listed other old before i inside
      exact ⟨wait, Arena.getElem?_push_of_some _ present, own⟩
    rcases Arena.getElem?_modify_cases read with ⟨rfl, old, before, rfl⟩ | ⟨-, before⟩
    · rw [added] at inside
      rcases List.mem_append.mp inside with former | new
      · exact older before former
      -- The new promise names the entry that now lists it.
      · rw [List.mem_singleton.mp new]
        exact ⟨⟨e, false⟩, by simp, rfl⟩
    · exact older before inside
  resolved := by
    intro i wait read resolved
    rcases Arena.getElem?_push_cases read with ⟨-, rfl⟩ | before
    -- The new promise has not resolved.
    · simp at resolved
    · obtain ⟨record, present, disposed⟩ := sound.resolved i wait before resolved
      rw [same]
      exact Arena.exists_getElem?_modify present (fun _ => (ended record).trans disposed)
        fun _ => disposed

end WaitsSound

/-- Resolving a list of promises resolves those and no others. -/
theorem getElem?_resolveAll {waits : List DisposalWait} {list : List DisposalWaitId} {i : Nat}
    {wait : DisposalWait} (found : (list.foldl (fun waits i =>
      waits.modify i fun wait => { wait with resolved := true }) waits)[i]? = some wait) :
    ∃ old, waits[i]? = some old ∧ wait.entry = old.entry ∧
      (wait.resolved = true → old.resolved = true ∨ i ∈ list) := by
  -- Each turn resolves one promise of the list, so a resolved one was so before or is listed.
  induction list generalizing waits with
  | nil => exact ⟨wait, found, rfl, .inl⟩
  | cons first rest ih =>
    obtain ⟨between, present, same, cause⟩ := ih found
    rcases Arena.getElem?_modify_cases present with ⟨rfl, old, before, rfl⟩ | ⟨-, before⟩
    · exact ⟨old, before, same, fun _ => .inr List.mem_cons_self⟩
    · exact ⟨between, before, same, fun resolved => (cause resolved).imp id
        fun inside => List.mem_cons_of_mem _ inside⟩

/-- Resolving promises keeps them in place. -/
theorem getElem?_resolveAll_of_some {waits : List DisposalWait} (list : List DisposalWaitId)
    {i : Nat} {wait : DisposalWait} (found : waits[i]? = some wait) :
    ∃ after, (list.foldl (fun waits i =>
      waits.modify i fun wait => { wait with resolved := true }) waits)[i]? = some after ∧
        after.entry = wait.entry := by
  -- A turn touches the flag of one promise and never its entry.
  induction list generalizing waits wait with
  | nil => exact ⟨wait, found, rfl⟩
  | cons first rest ih =>
    by_cases here : first = i
    · subst here
      obtain ⟨after, last, same⟩ := ih (Arena.getElem?_modify_self
        (fun wait : DisposalWait => { wait with resolved := true }) found)
      exact ⟨after, last, same⟩
    · exact ih (by rw [Arena.getElem?_modify_other _ _ here, found])

namespace State

variable [DecidableEq κ] {options : PoolOptions} {s next : State κ τ} {e : EntryId}

/-- A turn of the reservation loop keeps the promises. -/
theorem SlotEffect.waitsSound {a : AcquireId} (effect : SlotEffect options s a next)
    (sound : WaitsSound s.heap s.disposalWaits) : WaitsSound next.heap next.disposalWaits := by
  -- An eviction reassigns its victim, and nothing else is touched.
  cases effect with
  | evicted victim =>
    exact sound.reassign victim _ (Store.evict_heap s.toStore victim) (fun _ => rfl) fun _ => rfl
  | unbounded | refused | reserved | exhausted | parked => exact sound

/-- `obtain` from the orphan lookup on keeps the promises. -/
theorem MissEffect.waitsSound {a : AcquireId} {key : κ} (effect : MissEffect options s a key next)
    (sound : WaitsSound s.heap s.disposalWaits) : WaitsSound next.heap next.disposalWaits := by
  -- Only the reservation loop remains to be looked at.
  cases effect with
  | resurrected | refused => exact sound
  | slot _ _ _ effect => exact effect.waitsSound sound

/-- Dropping a reference keeps the promises. -/
theorem ReleaseEffect.waitsSound (effect : ReleaseEffect s e next)
    (sound : WaitsSound s.heap s.disposalWaits) : WaitsSound next.heap next.disposalWaits := by
  -- Every outcome reassigns the entry without its promises.
  cases effect with
  | ignored => exact sound
  | dropped => exact sound.reassign e _ rfl (fun _ => rfl) fun _ => rfl
  | retired =>
    have retired := sound.reassign e _ (Store.retire_heap s.toStore e (lastDrop s.now))
      (fun _ => rfl) fun _ => rfl
    rwa [← stampReleased_dropReference] at retired
  | freed =>
    have freed := sound.reassign e _ (Store.free_heap s.toStore e (lastDrop s.now))
      (fun _ => rfl) fun _ => rfl
    rwa [← stampReleased_dropReference] at freed

/-- A drain makes its promises and keeps the others. -/
theorem waitsSound_drain (wf : s.toStore.WellFormed)
    (sound : WaitsSound s.heap s.disposalWaits) :
    WaitsSound s.drain.heap s.drain.disposalWaits := by
  -- Orphaning and condemning come with a promise each, and evicting with none.
  obtain ⟨last, waits, -, kept, -, same⟩ := drain_rule (s := s)
    (P := fun s _ => WaitsSound s.heap s.disposalWaits) wf
    (fun s _ e entry _ sound _ _ _ =>
      sound.reassign e _ (Store.evict_heap s.toStore e) (fun _ => rfl) fun _ => rfl)
    (fun s _ e entry _ sound _ _ _ =>
      sound.await _ (condemnHeld_heap s e entry.key) (fun _ => rfl) fun _ => rfl)
    (fun s _ e entry _ sound _ _ _ =>
      sound.await _ (condemnOrphan_heap s e) (fun _ => rfl) fun _ => rfl)
    sound
  rw [same]
  exact kept

/-- Every step keeps the promises. -/
theorem Effect.waitsSound {action : Action κ τ} (wf : s.toStore.WellFormed)
    (effect : Effect options s action next) (sound : WaitsSound s.heap s.disposalWaits) :
    WaitsSound next.heap next.disposalWaits := by
  -- Only the end of a disposal resolves promises.
  cases effect with
  | shared key e =>
    exact sound.reassign e _ (Store.checkout_heap s.toStore e) (fun _ => rfl) fun _ => rfl
  | delivered a acquire e =>
    exact sound.reassign e _ (Store.checkout_heap s.toStore e) (fun _ => rfl) fun _ => rfl
  | released h handle next found holding effect => exact effect.waitsSound sound
  | releasedKey key e next bound effect => exact effect.waitsSound sound
  | drain => exact waitsSound_drain wf sound
  | stop => exact waitsSound_drain (s := s.setClosed.stopTimers) wf sound
  | sweep =>
    exact (sweep_rule options (P := fun s => WaitsSound s.heap s.disposalWaits) wf
      (fun s node _ _ sound _ _ _ =>
        sound.reassign node _ (Store.evict_heap s.toStore node) (fun _ => rfl) fun _ => rfl)
      (fun _ _ => id) sound).2
  | missed a acquire after next called phase turn absent effect => exact effect.waitsSound sound
  | discarded a acquire live next called phase effect => exact effect.waitsSound sound
  | resumed a acquire w waiter next called phase found woken effect =>
    exact effect.waitsSound sound
  | refuted a acquire live =>
    exact sound.reassign live _ (Store.discard_heap s.toStore live) (fun _ => rfl) fun _ => rfl
  | inserted x exec resource =>
    show WaitsSound (s.toStore.insert exec.key resource s.now).heap s.disposalWaits
    rw [Store.insert_heap]
    exact sound.push rfl
  | disposeSettled e entry found =>
    -- The promises that resolve are those the entry lists, and the entry is disposed.
    have heap := finishDispose_heap options s e entry
    constructor
    · intro other record read i inside
      rw [heap] at read
      rcases Arena.getElem?_modify_cases read with ⟨rfl, old, -, rfl⟩ | ⟨-, before⟩
      · simp at inside
      · obtain ⟨wait, present, own⟩ := sound.listed other record before i inside
        obtain ⟨after, last, same⟩ :=
          getElem?_resolveAll_of_some entry.disposeWaiters present
        exact ⟨after, last, same.trans own⟩
    · intro i wait read resolved
      obtain ⟨old, present, same, cause⟩ := getElem?_resolveAll read
      rw [heap, same]
      have ended : ∃ record, (s.heap.modify e fun entry =>
          { entry with disposed := true, disposeWaiters := [] })[e]? = some record ∧
            record.disposed = true :=
        ⟨_, Arena.getElem?_modify_self _ found, rfl⟩
      by_cases here : e = old.entry
      · exact here ▸ ended
      · rw [Arena.getElem?_modify_other _ _ here]
        -- A promise of another entry was resolved before, since its entry is the one that lists it.
        rcases cause resolved with before | inside
        · exact sound.resolved i old present before
        · obtain ⟨other, present', own⟩ := sound.listed e entry found i inside
          cases present.symm.trans present'
          exact absurd own.symm here
  | queued | releasedAgain | releasedNone | start | gcKeyState | emitStats | timeout | clock
  | validating | returned | abandoned | breakerless | creating | failed | drained | unvalidated
  | passed | factoryCalled | factorySettled | execRejected | execLate | lateDisposeSettled
  | breakerChanged => exact sound

end State

end RefPool
