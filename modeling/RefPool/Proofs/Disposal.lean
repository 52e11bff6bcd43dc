import RefPool.Proofs.History

/-! When a disposal begins, and what brought it about. -/

namespace RefPool

variable {κ τ : Type}

/-- Where the disposal of an entry begins between two stores, it has a cause. -/
def Store.Starts (cause : EntryId → Entry κ τ → Prop) (store next : Store κ τ) : Prop :=
  ∀ (e : Nat) entry after, store.heap[e]? = some entry → next.heap[e]? = some after →
    after.disposing = true → entry.disposing = true ∨ cause e entry

namespace Store.Starts

variable {cause : EntryId → Entry κ τ → Prop} {store next : Store κ τ}

/-- No disposal begins where the entries stay as they are. -/
theorem same (heap : next.heap = store.heap) : Starts cause store next := by
  -- The flag is read from the same entry.
  intro e entry after found present started
  rw [heap] at present
  cases found.symm.trans present
  exact .inl started

/-- Reassigning one entry begins at most its own disposal. -/
theorem reassign (e : EntryId) (assign : Entry κ τ → Entry κ τ)
    (heap : next.heap = store.heap.modify e assign)
    (own : ∀ entry, store.heap[e]? = some entry → (assign entry).disposing = true →
      entry.disposing = true ∨ cause e entry) : Starts cause store next := by
  -- The other entries are read as before, so nothing began for them.
  intro other entry after found present started
  rw [heap] at present
  rcases Arena.getElem?_modify_cases present with ⟨rfl, old, before, rfl⟩ | ⟨-, before⟩
  · cases found.symm.trans before
    exact own entry found started
  · cases found.symm.trans before
    exact .inl started

/-- Assigning other fields of one entry begins no disposal. -/
theorem update (e : EntryId) (assign : Entry κ τ → Entry κ τ)
    (heap : next.heap = store.heap.modify e assign)
    (kept : ∀ entry, (assign entry).disposing = entry.disposing) : Starts cause store next :=
  -- The flag of the entry is carried over.
  reassign e assign heap fun entry _ started => .inl (kept entry ▸ started)

/-- Causes found on the way are traced back to the first store. -/
theorem trans {middle : Store κ τ} (later : EntryId → Entry κ τ → Prop)
    (kept : Store.Kept store middle) (first : Starts cause store middle)
    (second : Starts later middle next)
    (back : ∀ (e : Nat) entry between, store.heap[e]? = some entry → entry.Kept between →
      later e between → cause e entry) : Starts cause store next := by
  -- A disposal begun by the second operation has a cause there, which is traced to the first store.
  intro e entry after found present started
  obtain ⟨between, middle, same⟩ := kept.entry e entry found
  rcases second e between after middle present started with started | caused
  · exact first e entry between found middle started
  · exact .inr (back e entry between found same caused)

variable [DecidableEq κ]

/-- Evicting an entry begins its own disposal. -/
theorem evict (e : EntryId) (own : ∀ entry, store.heap[e]? = some entry → cause e entry) :
    Starts cause store ((store.unlink e).beginDispose e) :=
  -- The only entry whose flag goes up is the one evicted.
  reassign e _ (evict_heap store e) fun entry found _ => .inr (own entry found)

/-- Discarding an entry begins its own disposal. -/
theorem discard (e : EntryId) (own : ∀ entry, store.heap[e]? = some entry → cause e entry) :
    Starts cause store ((store.removeEntry e).beginDispose e) :=
  -- The only entry whose flag goes up is the one discarded.
  reassign e _ (discard_heap store e) fun entry found _ => .inr (own entry found)

end Store.Starts

namespace State

variable [DecidableEq κ] {options : PoolOptions} {s next : State κ τ} {e : EntryId}

/-- Why a step begins the disposal of an entry. -/
inductive Cause (s : State κ τ) (action : Action κ τ) (e : EntryId) (entry : Entry κ τ) : Prop
  /-- It is unheld and no acquire of its key is in flight. -/
  | evicted (unheld : entry.refCount = 0)
      (spared : s.toKeyState.isPending entry.key = false)
  /-- A drain finds it unheld. -/
  | drained (closing : action = .drain ∨ action = .stop) (unheld : entry.refCount = 0)
  /-- A handle gives back its last reference, and it is condemned. -/
  | released (h : HandleId) (handle : Handle) (acting : action = .releaseHandle h)
      (held : s.handles[h]? = some handle) (holding : handle.released = false)
      (own : handle.entry = e) (last : entry.refCount = 1) (condemned : entry.condemned = true)
  /-- A release by key drops its last reference, and it is condemned. -/
  | releasedKey (key : κ) (acting : action = .release key) (last : entry.refCount = 1)
      (condemned : entry.condemned = true)
  /-- It failed validation. -/
  | refuted (a : AcquireId) (acquire : Acquire κ) (acting : action = .validated a (some false))
      (called : s.acquires[a]? = some acquire) (phase : acquire.phase = .validating e)

/-- A turn of the reservation loop disposes of a spared entry only. -/
theorem SlotEffect.starts {a : AcquireId} {action : Action κ τ}
    (effect : SlotEffect options s a next) (wf : s.toStore.WellFormed) :
    s.toStore.Starts (s.Cause action) next.toStore := by
  -- The victim is listed, so unheld, and eviction skips the marked keys.
  cases effect with
  | evicted victim _ _ _ listed spared =>
    refine .evict victim fun entry found => ?_
    simp only [nodePending, found] at spared
    exact .evicted (wf.unheld_of_listed listed found) spared
  | unbounded | refused | reserved | exhausted | parked => exact .same rfl

/-- `obtain` from the orphan lookup on disposes of a spared entry only. -/
theorem MissEffect.starts {a : AcquireId} {key : κ} {action : Action κ τ}
    (effect : MissEffect options s a key next) (wf : s.toStore.WellFormed) :
    s.toStore.Starts (s.Cause action) next.toStore := by
  cases effect with
  | resurrected | refused => exact .same rfl
  | slot _ _ _ effect =>
    intro e entry after found present started
    have starts : s.toStore.Starts (s.miss.Cause action) next.toStore := effect.starts wf
    -- Counting the miss changes nothing that a cause looks at.
    rcases starts e entry after found present started with started | caused
    · exact .inl started
    · refine .inr ?_
      cases caused with
      | evicted unheld spared => exact .evicted unheld spared
      | drained closing unheld => exact .drained closing unheld
      | released h handle acting held holding own last condemned =>
        exact .released h handle acting held holding own last condemned
      | releasedKey key acting last condemned => exact .releasedKey key acting last condemned
      | refuted b acquire acting called phase => exact .refuted b acquire acting called phase

/-- Dropping a reference disposes of a condemned entry whose last reference it was. -/
theorem ReleaseEffect.starts (effect : ReleaseEffect s e next) (wf : s.toStore.WellFormed) :
    s.toStore.Starts (fun other entry => other = e ∧ entry.refCount = 1 ∧
      entry.condemned = true) next.toStore := by
  -- An orphan is condemned as well, so either way the entry is.
  cases effect with
  | ignored => exact .same rfl
  | dropped => exact .update e _ rfl fun _ => rfl
  | retired entry found undisposed last doomed =>
    have condemned : entry.condemned = true :=
      doomed.elim id fun bound => (wf.orphaned_at bound found).condemned
    have retired : Store.Starts (fun other entry => other = e ∧ entry.refCount = 1 ∧
        entry.condemned = true) s.toStore
        (((s.toStore.update e (lastDrop s.now)).removeEntry e).beginDispose e) := by
      refine .reassign e _ (Store.retire_heap s.toStore e (lastDrop s.now))
        fun record present _ => .inr ?_
      cases found.symm.trans present
      exact ⟨rfl, last, condemned⟩
    rwa [← stampReleased_dropReference] at retired
  | freed =>
    have freed : Store.Starts (fun other entry => other = e ∧ entry.refCount = 1 ∧
        entry.condemned = true) s.toStore
        ((s.toStore.update e (lastDrop s.now)).idleAppend e) :=
      .update e _ (Store.free_heap s.toStore e (lastDrop s.now)) fun _ => rfl
    rwa [← stampReleased_dropReference] at freed

/-- A drain disposes of unheld entries only. -/
theorem starts_drain (wf : s.toStore.WellFormed) :
    s.toStore.Starts (fun _ entry => entry.refCount = 0) s.drain.toStore := by
  -- The turns that orphan or condemn begin no disposal, and the others find the entry unheld.
  obtain ⟨last, waits, -, ⟨-, started⟩, -, same⟩ := drain_rule (s := s)
    (P := fun next _ => s.toStore.Kept next.toStore ∧
      s.toStore.Starts (fun _ entry => entry.refCount = 0) next.toStore) wf
    (fun next _ e entry _ ⟨kept, started⟩ found _ unheld =>
      ⟨kept.trans (.evict e),
        started.trans (fun _ entry => entry.refCount = 0) kept
          (.evict e fun record present => by
            cases found.symm.trans present
            exact unheld)
          fun _ _ _ _ same unheld => same.refCount.symm.trans unheld⟩)
    (fun next _ e entry _ ⟨kept, started⟩ _ _ _ =>
      ⟨(kept.trans (.orphan entry.key e)).trans (.setWaiters e _),
        started.trans (fun _ _ => False) kept
          (.update e _ (condemnHeld_heap next e entry.key) fun _ => rfl)
          fun _ _ _ _ _ => False.elim⟩)
    (fun next _ e entry _ ⟨kept, started⟩ _ _ _ =>
      ⟨(kept.trans (.condemn e)).trans (.setWaiters e _),
        started.trans (fun _ _ => False) kept
          (.update e _ (condemnOrphan_heap next e) fun _ => rfl)
          fun _ _ _ _ _ => False.elim⟩)
    ⟨.refl _, .same rfl⟩
  rw [same]
  exact fun e entry after found present begun => started e entry after found present begun

/-- A sweep disposes of spared entries only. -/
theorem starts_sweep (wf : s.toStore.WellFormed) :
    s.toStore.Starts (fun _ entry => entry.refCount = 0 ∧
      s.toKeyState.isPending entry.key = false) (s.sweep options).toStore := by
  -- The marks are those the sweep started with, since it touches none.
  refine (sweep_rule options
    (P := fun next => next.toKeyState = s.toKeyState ∧ s.toStore.Kept next.toStore ∧
      s.toStore.Starts (fun _ entry => entry.refCount = 0 ∧
        s.toKeyState.isPending entry.key = false) next.toStore) wf ?_
    (fun _ _ => id) ⟨rfl, .refl _, .same rfl⟩).2.2.2
  rintro next node entry wf ⟨keys, kept, started⟩ found listed spared
  refine ⟨keys, kept.trans (.evict node),
    started.trans (fun _ entry => entry.refCount = 0 ∧
      s.toKeyState.isPending entry.key = false) kept (.evict node fun record present => ?_)
      fun _ _ _ _ same ⟨unheld, spared⟩ =>
        ⟨same.refCount.symm.trans unheld, by rwa [← same.key]⟩⟩
  cases found.symm.trans present
  simp only [nodePending, found, keys] at spared
  exact ⟨wf.unheld_of_listed listed found, spared⟩

/-- Every disposal that a step begins has a cause. -/
theorem Effect.starts {action : Action κ τ} (wf : s.toStore.WellFormed)
    (effect : Effect options s action next) :
    s.toStore.Starts (s.Cause action) next.toStore := by
  -- A fresh entry is not being disposed of, and the other steps have their laws.
  cases effect with
  | shared key e => exact .update e _ (Store.checkout_heap s.toStore e) fun _ => rfl
  | delivered a acquire e => exact .update e _ (Store.checkout_heap s.toStore e) fun _ => rfl
  | released h handle next found holding effect =>
    intro e entry after present last begun
    rcases effect.starts wf e entry after present last begun with begun | ⟨same, last, condemned⟩
    · exact .inl begun
    · exact .inr (.released h handle rfl found holding same.symm last condemned)
  | releasedKey key e next bound effect =>
    intro other entry after present last begun
    rcases effect.starts wf other entry after present last begun with begun | ⟨-, last, condemned⟩
    · exact .inl begun
    · exact .inr (.releasedKey key rfl last condemned)
  -- A drain begins the disposal of everything that nobody holds.
  | drain =>
    intro e entry after present last begun
    exact (starts_drain wf e entry after present last begun).imp id (.drained (.inl rfl))
  | stop =>
    intro e entry after present last begun
    exact (starts_drain (s := s.setClosed.stopTimers) wf e entry after present last begun).imp id
      (.drained (.inr rfl))
  | sweep =>
    intro e entry after present last begun
    exact (starts_sweep wf e entry after present last begun).imp id
      fun ⟨unheld, spared⟩ => .evicted unheld spared
  | missed a acquire after next called phase turn absent effect => exact effect.starts wf
  | discarded a acquire live next called phase effect => exact effect.starts wf
  | resumed a acquire w waiter next called phase found woken effect => exact effect.starts wf
  | refuted a acquire live called phase =>
    exact .discard live fun _ _ => .refuted a acquire rfl called phase
  -- The older entries are not touched.
  | inserted x exec resource =>
    intro e entry after found present begun
    have older : e ≠ s.heap.length := Nat.ne_of_lt (List.getElem?_eq_some_iff.mp found).1
    have same := insert_heap_other s.toStore exec.key resource s.now older
    cases found.symm.trans (same.symm.trans present)
    exact .inl begun
  | disposeSettled e entry =>
    exact .update e _ (finishDispose_heap options s e entry) fun _ => rfl
  | queued | releasedAgain | releasedNone | start | gcKeyState | emitStats | timeout | clock
  | validating | returned | abandoned | breakerless | creating | failed | drained | unvalidated
  | passed | factoryCalled | factorySettled | execRejected | execLate | lateDisposeSettled
  | breakerChanged => exact .same rfl

/-- What can begin the disposal of the entry that a running call is about. -/
theorem Cause.of_running {action : Action κ τ} {a : AcquireId} {acquire : Acquire κ}
    {entry : Entry κ τ} (cause : s.Cause action e entry) (core : Core s)
    (called : s.acquires[a]? = some acquire) (running : acquire.phase.stage = .running)
    (found : s.heap[e]? = some entry) (key : entry.key = acquire.key) :
    (action = .validated a (some false) ∧ acquire.phase = .validating e) ∨
      ((action = .drain ∨ action = .stop) ∧ entry.refCount = 0) ∨
      (entry.refCount = 1 ∧ entry.condemned = true ∧ ((∃ key, action = .release key) ∨
        ∃ h handle, action = .releaseHandle h ∧ s.handles[h]? = some handle ∧
          handle.released = false ∧ handle.entry = e)) := by
  cases cause with
  | evicted _ spared =>
    -- The call marks the key, and eviction skips marked keys.
    have pending := pending_of_running core ⟨a, acquire, called, key.symm, running⟩
    simp [pending] at spared
  | drained closing unheld => exact .inr (.inl ⟨closing, unheld⟩)
  | released h handle acting held holding own last condemned =>
    exact .inr (.inr ⟨last, condemned, .inr ⟨h, handle, acting, held, holding, own⟩⟩)
  | releasedKey key acting last condemned =>
    exact .inr (.inr ⟨last, condemned, .inl ⟨key, acting⟩⟩)
  | refuted b other acting called' phase' =>
    obtain ⟨record, found', same, -⟩ := core.fits called' phase'
    cases found.symm.trans found'
    by_cases alone : a = b
    · subst alone
      cases called.symm.trans called'
      exact .inl ⟨acting, phase'⟩
    -- Another call of the key does not run at the same time.
    · exact absurd (same.symm.trans key) (alone_of_running core called running b other alone called'
        (by rw [phase']; rfl))

end State

end RefPool
