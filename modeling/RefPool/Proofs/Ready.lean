import RefPool.Proofs.Disposal

/-! The entries that suspended calls lay claim to, and what can begin their disposal. -/

namespace RefPool

variable {κ τ : Type}

/-- A choice of the entry a call lays claim to: one it returned, and perhaps one it validates. -/
structure Claims (claims : Phase → Option EntryId) : Prop where
  returned : ∀ e, claims (.returned e) = some e
  within : ∀ phase e, claims phase = some e → phase = .validating e ∨ phase = .returned e

/-- The disposal of an entry has not begun. -/
def Undisposed (heap : List (Entry κ τ)) (e : EntryId) : Prop :=
  ∃ entry, heap[e]? = some entry ∧ entry.disposing = false

/-- Every entry that a call lays claim to has the property. -/
def EveryClaim (claims : Phase → Option EntryId) (P : EntryId → Prop)
    (acquires : List (Acquire κ)) : Prop :=
  ∀ (a : Nat) acquire (e : Nat), acquires[a]? = some acquire → claims acquire.phase = some e → P e

/-- No entry that a call lays claim to is being disposed of. -/
def Ready (claims : Phase → Option EntryId) (heap : List (Entry κ τ))
    (acquires : List (Acquire κ)) : Prop :=
  ∀ (a : Nat) acquire (e : Nat), acquires[a]? = some acquire → claims acquire.phase = some e →
    Undisposed heap e

namespace EveryClaim

variable {claims : Phase → Option EntryId} {P : EntryId → Prop} {acquires : List (Acquire κ)}
  {a : AcquireId}

/-- A new call lays no claim. -/
theorem push (each : EveryClaim claims P acquires) {acquire : Acquire κ}
    (unclaimed : claims acquire.phase = none) : EveryClaim claims P (acquires ++ [acquire]) := by
  -- The older calls claim what they did.
  intro b other e called claimed
  rcases Arena.getElem?_push_cases called with ⟨-, rfl⟩ | before
  · simp [unclaimed] at claimed
  · exact each b other e before claimed

/-- A call moves on to a phase whose claim, if it has one, has the property. -/
theorem move (others : ∀ (b : Nat) other (e : Nat), a ≠ b → acquires[b]? = some other →
      claims other.phase = some e → P e)
    (phase : Phase) (own : ∀ (e : Nat), claims phase = some e → P e) :
    EveryClaim claims P (acquires.modify a fun acquire => { acquire with phase }) := by
  -- The call that moves brings its own claim, and the others keep theirs.
  intro b other e read claimed
  rcases Arena.getElem?_modify_cases read with ⟨-, old, -, rfl⟩ | ⟨differ, before⟩
  · exact own e claimed
  · exact others b other e differ before claimed

end EveryClaim

namespace Ready

variable {claims : Phase → Option EntryId} {heap : List (Entry κ τ)}
  {acquires : List (Acquire κ)} {a : AcquireId}

/-- A new call lays no claim to an entry being disposed of. -/
theorem push (ready : Ready claims heap acquires) {acquire : Acquire κ}
    (unclaimed : claims acquire.phase = none) : Ready claims heap (acquires ++ [acquire]) :=
  -- It is the law for any property of the entries claimed.
  EveryClaim.push ready unclaimed

/-- A call moves on to a phase whose claim, if it has one, is not being disposed of. -/
theorem move (others : ∀ (b : Nat) other (e : Nat), a ≠ b → acquires[b]? = some other →
      claims other.phase = some e → Undisposed heap e)
    (phase : Phase) (fresh : ∀ (e : Nat), claims phase = some e → Undisposed heap e) :
    Ready claims heap (acquires.modify a fun acquire => { acquire with phase }) :=
  -- It is the law for any property of the entries claimed.
  EveryClaim.move others phase fresh

end Ready

namespace Claims

variable {claims : Phase → Option EntryId}

/-- A call that lays a claim has had its turn. -/
theorem stage_of_claimed (selects : Claims claims) {phase : Phase} {e : EntryId}
    (claimed : claims phase = some e) : phase.stage = .running := by
  -- Both kinds of phase that claim an entry are running.
  rcases selects.within phase e claimed with rfl | rfl <;> rfl

/-- The other phases lay no claim. -/
theorem none_of (selects : Claims claims) {phase : Phase}
    (neither : ∀ e, phase ≠ .validating e ∧ phase ≠ .returned e) : claims phase = none := by
  -- A claim would come with one of the two phases.
  cases claimed : claims phase with
  | none => rfl
  | some e =>
    rcases selects.within phase e claimed with same | same
    · exact absurd same (neither e).1
    · exact absurd same (neither e).2

end Claims

namespace State

variable [DecidableEq κ] {options : PoolOptions} {s next : State κ τ} {e : EntryId}
  {claims : Phase → Option EntryId}

/-- What would begin the disposal of an entry that a suspended call lays claim to. -/
def Disturbs (s : State κ τ) (action : Action κ τ) (e : EntryId) (entry : Entry κ τ) : Prop :=
  ((action = .drain ∨ action = .stop) ∧ entry.refCount = 0) ∨
    (entry.refCount = 1 ∧ entry.condemned = true ∧ ((∃ key, action = .release key) ∨
      ∃ h handle, action = .releaseHandle h ∧ s.handles[h]? = some handle ∧
        handle.released = false ∧ handle.entry = e))

/-- The entry that a call lays claim to is one of its key. -/
theorem entry_of_claimed (selects : Claims claims) (core : Core s) {a : AcquireId}
    {acquire : Acquire κ} (called : s.acquires[a]? = some acquire)
    (claimed : claims acquire.phase = some e) :
    ∃ entry, s.heap[e]? = some entry ∧ entry.key = acquire.key := by
  -- Both phases that lay claim to an entry rely on it.
  have fits := core.phases a acquire called
  rcases selects.within _ e claimed with phase | phase <;> rw [phase] at fits
  · obtain ⟨entry, found, key, -⟩ := fits
    exact ⟨entry, found, key⟩
  · exact fits

/-- A turn of the reservation loop lays no claim. -/
theorem SlotEffect.everyClaim {P : EntryId → Prop} {a : AcquireId}
    (effect : SlotEffect options s a next) (selects : Claims claims)
    (others : ∀ (b : Nat) other (e : Nat), a ≠ b → s.acquires[b]? = some other →
      claims other.phase = some e → P e) : EveryClaim claims P next.acquires := by
  -- The phases of the reservation loop are about no entry.
  cases effect <;>
    exact .move others _ fun e claimed => by simp [selects.none_of] at claimed

/-- `obtain` from the orphan lookup on lays claim to an orphan only, which is live by then. -/
theorem MissEffect.everyClaim {P : EntryId → Prop} {a : AcquireId} {key : κ}
    (effect : MissEffect options s a key next) (selects : Claims claims)
    (others : ∀ (b : Nat) other (e : Nat), a ≠ b → s.acquires[b]? = some other →
      claims other.phase = some e → P e)
    (own : ∀ e, next.entries.get? key = some e → P e) : EveryClaim claims P next.acquires := by
  -- Only a resurrection gives the call something to claim.
  cases effect with
  | resurrected e bound =>
    refine .move others _ fun other same => ?_
    cases (selects.returned e).symm.trans same
    exact own e (OrderedMap.get?_set_self ..)
  | refused => exact .move others _ fun e claimed => by simp [selects.none_of] at claimed
  | slot _ _ _ effect => exact effect.everyClaim selects others

/-- A step that disturbs no claim, and passes no entry being disposed of, leaves the calls ready. -/
theorem Effect.ready {action : Action κ τ} (core : Core s)
    (effect : Effect options s action next) (selects : Claims claims)
    (ready : Ready claims s.heap s.acquires)
    (calm : ∀ (a : Nat) acquire (e : Nat) entry, s.acquires[a]? = some acquire →
      claims acquire.phase = some e → s.heap[e]? = some entry → ¬ s.Disturbs action e entry)
    (passing : ∀ (a : Nat) acquire (live : Nat), action = .validated a (some true) →
      s.acquires[a]? = some acquire → acquire.phase = .validating live →
      Undisposed s.heap live) : Ready claims next.heap next.acquires := by
  have wf := core.store
  -- A claimed entry is disposed of only by the call that found it invalid.
  have others (b : Nat) other (e : Nat) (acting : action ≠ .validated b (some false))
      (called : s.acquires[b]? = some other) (claimed : claims other.phase = some e) :
      Undisposed next.heap e := by
    obtain ⟨entry, found, fresh⟩ := ready b other e called claimed
    obtain ⟨after, present, -⟩ := (effect.grows wf).entry e entry found
    refine ⟨after, present, Bool.eq_false_iff.mpr fun begun => ?_⟩
    obtain ⟨record, found', key⟩ := entry_of_claimed selects core called claimed
    cases found.symm.trans found'
    rcases effect.starts wf e entry after found present begun with started | caused
    · simp [fresh] at started
    · rcases caused.of_running core called (selects.stage_of_claimed claimed) found key with
        ⟨own, -⟩ | disturbs
      · exact acting own
      · exact calm b other e entry called claimed found disturbs
  have lasting (acting : ∀ b, action ≠ .validated b (some false)) :
      Ready claims next.heap s.acquires := fun b other e => others b other e (acting b)
  -- An orphan that comes back to the live map is not being disposed of.
  have resurrected {key : κ} (e : EntryId) (bound : next.entries.get? key = some e) :
      Undisposed next.heap e := by
    obtain ⟨after, found, promised⟩ := (effect.wellFormed core).live key e bound
    exact ⟨after, found, promised.undisposed⟩
  -- What remains is the claim of the call that moves, if it moves to one.
  cases effect with
  | shared key e =>
    show Ready claims _ ((s.acquires ++ [(⟨key, none, .queued none⟩ : Acquire κ)]).modify
      s.acquires.length fun acquire => { acquire with phase := .fulfilled s.handles.length })
    rw [shared_acquires]
    exact (lasting (by simp)).push (selects.none_of (by simp))
  | queued key => exact (lasting (by simp)).push (selects.none_of (by simp))
  | released h handle next found holding effect =>
    rw [effect.sameCalls.acquires]
    exact lasting (by simp)
  | releasedKey key e next bound effect =>
    rw [effect.sameCalls.acquires]
    exact lasting (by simp)
  | drain =>
    rw [(sameCalls_drain wf).acquires]
    exact lasting (by simp)
  | stop =>
    have same := sameCalls_drain (s := s.setClosed.stopTimers) wf
    unfold State.stop at lasting ⊢
    rw [same.acquires]
    exact lasting (by simp)
  | sweep =>
    rw [(sameCalls_sweep wf).acquires]
    exact lasting (by simp)
  | validating a acquire after e entry called phase turn bound found
  | returned a acquire after e entry called phase turn bound found =>
    refine .move (fun b other e _ => others b other e (by simp)) _ fun other same => ?_
    obtain rfl : e = other := by simpa using selects.within _ other same
    exact ⟨entry, found, (wf.live_at bound found).undisposed⟩
  | passed a acquire live called phase =>
    refine .move (fun b other e _ => others b other e (by simp)) _ fun other same => ?_
    cases (selects.returned live).symm.trans same
    exact passing a acquire live rfl called phase
  | refuted a acquire live =>
    exact .move (fun b other e differ => others b other e (by simpa using differ)) _
      fun e claimed => by simp [selects.none_of] at claimed
  | inserted x exec resource =>
    refine .move (fun b other e _ => others b other e (by simp)) _ fun other same => ?_
    cases (selects.returned _).symm.trans same
    exact ⟨_, insert_heap_new s.toStore exec.key resource s.now, rfl⟩
  | missed a acquire after next called phase turn absent effect =>
    exact effect.everyClaim selects (fun b other e _ => others b other e (by simp)) resurrected
  | discarded a acquire live next called phase effect =>
    exact effect.everyClaim selects (fun b other e _ => others b other e (by simp)) resurrected
  | resumed a acquire w waiter next called phase found woken effect =>
    exact effect.everyClaim selects fun b other e _ => others b other e (by simp)
  | abandoned | breakerless | creating | delivered | failed | unvalidated | execRejected | execLate
  | lateDisposeSettled =>
    exact .move (fun b other e _ => others b other e (by simp)) _
      fun e claimed => by simp [selects.none_of] at claimed
  | releasedAgain | releasedNone | start | gcKeyState | emitStats | timeout | clock | drained
  | factoryCalled | factorySettled | disposeSettled | breakerChanged => exact lasting (by simp)

end State

end RefPool
