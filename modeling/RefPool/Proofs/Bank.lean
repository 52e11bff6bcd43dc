import RefPool.Proofs.Core

/-! What each step does to the breakers, the collection included. -/

namespace RefPool.State

variable {κ τ : Type} [DecidableEq κ]

/-- Whether a key has a live entry, an orphan or an acquire in flight. -/
def present (s : State κ τ) (key : κ) : Bool :=
  s.entries.has key || s.orphans.has key || s.toKeyState.isPending key

/-- What a step does to the breakers. -/
inductive BankEffect (options : PoolOptions) (s : State κ τ) : Action κ τ → BreakerBank κ → Prop
  /-- Most steps leave the breakers alone. -/
  | same (action : Action κ τ) (unended : ∀ e, action ≠ .disposeSettled e) :
      BankEffect options s action s.toBreakerBank
  /-- A creation resolves the breaker of its key. -/
  | resolved (a : AcquireId) (acquire : Acquire κ) (answer : BreakerMade) (bank : BreakerBank κ)
      (called : s.acquires[a]? = some acquire) (phase : acquire.phase = .granted)
      (made : s.toBreakerBank.resolveBreaker options.breaker acquire.key answer = some bank) :
      BankEffect options s (.create a answer) bank
  /-- The end of a disposal drops the breaker of the entry's key, unless the key is present. -/
  | dropped (e : EntryId) (entry : Entry κ τ) (found : s.heap[e]? = some entry)
      (started : entry.disposing = true) (unfinished : entry.disposed = false) :
      BankEffect options s (.disposeSettled e)
        (s.toBreakerBank.dropBreaker options.breaker entry.key (s.present entry.key))
  /-- The collection drops the breakers of all absent keys. -/
  | collected : BankEffect options s .gcKeyState
      (s.breakers.keys.foldl
        (fun bank key => bank.dropBreaker options.breaker key (s.present key)) s.toBreakerBank)
  /-- A breaker changes state. -/
  | changed (b : BreakerId) (state : BreakerState) (breaker : Breaker κ)
      (found : s.objects[b]? = some breaker) :
      BankEffect options s (.breakerChanged b state)
        { s.toBreakerBank with
          objects := s.objects.modify b fun breaker => { breaker with state } }

variable {options : PoolOptions} {s next : State κ τ} {a : AcquireId} {key : κ} {e : EntryId}

/-- A turn of the reservation loop leaves the breakers alone. -/
theorem SlotEffect.bank (effect : SlotEffect options s a next) :
    next.toBreakerBank = s.toBreakerBank := by
  -- None of the outcomes of a turn mentions them.
  cases effect <;> rfl

/-- `obtain` from the orphan lookup on leaves the breakers alone. -/
theorem MissEffect.bank (effect : MissEffect options s a key next) :
    next.toBreakerBank = s.toBreakerBank := by
  -- Only the reservation loop remains to be looked at.
  cases effect with
  | slot _ _ _ effect => exact effect.bank
  | resurrected | refused => rfl

/-- Dropping a reference leaves the breakers alone. -/
theorem ReleaseEffect.bank (effect : ReleaseEffect s e next) :
    next.toBreakerBank = s.toBreakerBank := by
  -- None of the outcomes mentions them.
  cases effect <;> rfl

/-- A sweep leaves the breakers alone. -/
theorem bank_sweep (wf : s.toStore.WellFormed) :
    (s.sweep options).toBreakerBank = s.toBreakerBank := by
  -- No turn of the walk looks at a breaker.
  exact (sweep_rule options (P := fun next => next.toBreakerBank = s.toBreakerBank) wf
    (fun _ _ _ _ kept _ _ _ => kept) (fun _ _ => id) rfl).2

/-- The marks survive the collection of the mutexes. -/
theorem gcMutexes_pending (keys : KeyState κ) (cutoff : Int) :
    (keys.gcMutexes cutoff).pending = keys.pending := by
  unfold KeyState.gcMutexes
  -- Each turn of the walk deletes a mutex at most.
  refine List.foldlRecOn (motive := fun middle : KeyState κ => middle.pending = keys.pending)
    keys.mutexes.items _ rfl fun middle kept item _ => ?_
  split
  · exact kept
  · split
    · exact kept
    · exact kept

/-- The collection drops the breakers of the keys that are absent when it starts. -/
theorem bank_gcKeyState (s : State κ τ) :
    (s.gcKeyState options).toBreakerBank = s.breakers.keys.foldl
      (fun bank key => bank.dropBreaker options.breaker key (s.present key)) s.toBreakerBank := by
  -- A turn of the pruning changes the presence of no key.
  have pruned (names : List κ) (middle : State κ τ) (alike : middle.present = s.present) :
      (names.foldl (fun s key => s.dropBreaker options key) middle).toBreakerBank =
        names.foldl (fun bank key => bank.dropBreaker options.breaker key (s.present key))
          middle.toBreakerBank := by
    induction names generalizing middle with
    | nil => rfl
    | cons name rest ih =>
      rw [List.foldl_cons, List.foldl_cons, ih (middle.dropBreaker options name) alike, ← alike]
      rfl
  unfold gcKeyState
  dsimp only
  split
  · exact pruned _ s rfl
  · split
    · exact pruned _ s rfl
    · refine pruned _ { s with toKeyState := s.toKeyState.gcMutexes _ } ?_
      -- Neither does the collection of the mutexes.
      funext key
      simp only [present, KeyState.isPending, KeyState.pendingOf, gcMutexes_pending]
      rfl

/-- Every step has one of the effects on the breakers. -/
theorem bank_of_step {action : Action κ τ} (wf : s.toStore.WellFormed)
    (stepped : s.step options action = some next) :
    BankEffect options s action next.toBreakerBank := by
  -- Breakers are touched by creations, ends of disposals, the collection and themselves.
  have unchanged (unended : ∀ e, action ≠ .disposeSettled e)
      (kept : next.toBreakerBank = s.toBreakerBank) :
      BankEffect options s action next.toBreakerBank := by
    rw [kept]
    exact .same action unended
  cases step_effect stepped with
  | released h handle next _ _ effect => exact unchanged nofun effect.bank
  | releasedKey key e next _ effect => exact unchanged nofun effect.bank
  | drain => exact unchanged nofun (drain_frame wf).2.2.1
  | stop => exact unchanged nofun (drain_frame (s := s.setClosed.stopTimers) wf).2.2.1
  | sweep => exact unchanged nofun (bank_sweep wf)
  | missed a acquire after next _ _ _ _ effect => exact unchanged nofun effect.bank
  | discarded a acquire live next _ _ effect => exact unchanged nofun effect.bank
  | resumed a acquire w waiter next _ _ _ _ effect => exact unchanged nofun effect.bank
  | creating a acquire answer bank called phase resolved =>
    exact .resolved a acquire answer bank called phase resolved
  | disposeSettled e entry found started unfinished =>
    exact .dropped e entry found started unfinished
  | gcKeyState keys bank =>
    obtain ⟨-, same⟩ := Option.ite_none_right_eq_some.mp stepped
    have pruned : (s.gcKeyState options).toBreakerBank = _ := bank_gcKeyState s
    rw [Option.some.inj same] at pruned
    exact pruned ▸ .collected
  | breakerChanged b state =>
    obtain ⟨breaker, found, -⟩ := Option.map_eq_some_iff.mp stepped
    exact .changed b state breaker found
  | shared | queued | releasedAgain | releasedNone | start | emitStats | timeout | clock
  | validating | returned | abandoned | breakerless | delivered | failed | drained | unvalidated
  | passed | refuted | factoryCalled | factorySettled | execRejected | execLate | inserted
  | lateDisposeSettled => exact unchanged nofun rfl

end RefPool.State
