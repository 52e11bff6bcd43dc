import RefPool.Proofs.Closed
import RefPool.Proofs.Frame
import RefPool.Proofs.Ledger

/-! When a drain fulfils, what it covered is disposed of; the rest is what it does not wait for. -/

namespace RefPool.State

variable {κ τ : Type} [DecidableEq κ] {options : PoolOptions} {s next : State κ τ} {e : EntryId}

/-- The waits of a drain include one that ends with the disposal of an entry. -/
def Covers (s : State κ τ) (waits : List Wait) (e : EntryId) : Prop :=
  Wait.disposing e ∈ waits ∨ s.Awaited waits e

omit [DecidableEq κ] in
/-- Promises stay in place while others are made. -/
theorem Covers.mono {waits more : List Wait} (covers : s.Covers waits e)
    (promises : ∀ (i : Nat) wait, s.disposalWaits[i]? = some wait →
      ∃ after, next.disposalWaits[i]? = some after ∧ after.entry = wait.entry)
    (listed : ∀ wait ∈ waits, wait ∈ more) : next.Covers more e := by
  -- The promise is still there, names the same entry, and is still listed.
  rcases covers with disposing | ⟨i, wait, inside, found, own⟩
  · exact .inl (listed _ disposing)
  · obtain ⟨after, last, same⟩ := promises i wait found
    exact .inr ⟨i, after, listed _ inside, last, same.trans own⟩

/-- A drain waits for every entry that it finds in either map. -/
theorem covers_drain (wf : s.toStore.WellFormed) :
    ∃ waits, s.drain.drains = s.drains ++ [{ waits, fulfilled := false }] ∧
      ∀ key e, s.entries.get? key = some e ∨ s.orphans.get? key = some e →
        s.drain.Covers waits e := by
  -- On the way an entry is still bound, or waited for as an idle one.
  obtain ⟨last, waits, -, ⟨drains, kept⟩, nothing, awaited, same⟩ := drain_rule_awaited (s := s)
    (P := fun next waits => next.drains = s.drains ∧
      ∀ key e, s.entries.get? key = some e ∨ s.orphans.get? key = some e →
        (next.entries.get? key = some e ∨ next.orphans.get? key = some e) ∨
          Wait.disposing e ∈ waits) wf
    (fun next waits e entry wf ⟨drains, kept⟩ found bound _ => by
      have only := Store.OnlyEntry.evict found bound
      refine ⟨drains, fun key other was => ?_⟩
      by_cases same : other = e
      · exact .inr (by simp [same])
      · exact (kept key other was).imp
          (.imp (only.entries key other same).mpr (only.orphans key other same).mpr)
          (List.mem_append_left _))
    (fun next waits e entry wf ⟨drains, kept⟩ found bound _ => by
      have only := onlyEntry_condemnHeld wf found bound
      refine ⟨drains, fun key other was => ?_⟩
      refine (kept key other was).imp (fun is => ?_) (List.mem_append_left _)
      by_cases same : other = e
      · -- The entry is not lost: it has become the orphan of its key.
        subst same
        have own : entry.key = key := is.elim (fun live => (wf.live_at live found).key)
          fun orphaned => (wf.orphaned_at orphaned found).key
        refine .inr ?_
        show ((next.toStore.deleteKey other).orphan entry.key other).orphans.get? key = some other
        simp [Store.orphan, own]
      · exact is.imp (only.entries key other same).mpr (only.orphans key other same).mpr)
    (fun next waits e entry _ ⟨drains, kept⟩ _ _ _ =>
      ⟨drains, fun key other was => (kept key other was).imp id (List.mem_append_left _)⟩)
    ⟨rfl, fun key e was => .inl was⟩
  refine ⟨waits, by rw [same, drains], fun key e was => ?_⟩
  rw [same]
  -- In the end no key is live, and every orphan left is awaited.
  rcases kept key e was with (live | orphaned) | waited
  · simp [nothing] at live
  · exact .inr (awaited key e orphaned)
  · exact .inl waited

/-- The promises are sound wherever a run leads. -/
theorem waitsSound_run {actions : List (Action κ τ)}
    (ran : Runs.run (step options) (init options) actions = some s) :
    WaitsSound s.heap s.disposalWaits := by
  -- The promises are sound in the first state, and every step keeps them so.
  have kept := Runs.run_invariant
    (fun s : State κ τ => Core s ∧ WaitsSound s.heap s.disposalWaits)
    (fun s action next ⟨core, sound⟩ (stepped : s.step options action = some next) =>
      ⟨core_step core stepped, (step_effect stepped).waitsSound core.store sound⟩)
    ⟨core_init options, by constructor <;> simp [init, Store.empty]⟩ ran
  exact kept.2

/-! ### At the fulfilment -/

/--
`options.dispose` has completed for every entry and for every resource created too late.

A resource counts once the `exec` that created it has settled, which is when the pool gets it.
-/
def AllDisposed (s : State κ τ) : Prop :=
  (∀ entry ∈ s.heap, entry.disposed = true) ∧ ∀ acquire ∈ s.acquires, acquire.phase ≠ .closing

/-- Whether everything is disposed of can be checked. -/
instance (s : State κ τ) : Decidable s.AllDisposed := by
  unfold AllDisposed
  infer_instance

/--
What a drain does not wait for has ended on its own.

Every entry that was in neither map when the drain was called is disposed of, and no acquire is
still disposing of a resource that it was handed after the pool closed.
-/
def EndedElsewhere (called s : State κ τ) : Prop :=
  (∀ (e : Nat) entry, s.heap[e]? = some entry → e ∉ called.entries.values →
    e ∉ called.orphans.values → entry.disposed = true) ∧
    ∀ acquire ∈ s.acquires, acquire.phase ≠ .closing

/-- Whether everything else has ended can be checked. -/
instance (called s : State κ τ) : Decidable (EndedElsewhere called s) := by
  unfold EndedElsewhere
  infer_instance

omit [DecidableEq κ] in
/-- An entry is disposed of once every wait of a drain that covers it has resolved. -/
theorem disposed_of_covers {waits : List Wait} {entry : Entry κ τ}
    (sound : WaitsSound s.heap s.disposalWaits) (covers : s.Covers waits e)
    (resolved : waits.all s.waitResolved = true) (found : s.heap[e]? = some entry) :
    entry.disposed = true := by
  -- A wait for a disposal reads the entry, and a promise resolves with its entry disposed.
  rw [List.all_eq_true] at resolved
  rcases covers with disposing | ⟨i, wait, inside, made, rfl⟩
  · simpa [waitResolved, found] using resolved _ disposing
  · have ended : wait.resolved = true := by simpa [waitResolved, made] using resolved _ inside
    obtain ⟨record, present, disposed⟩ := sound.resolved i wait made ended
    cases found.symm.trans present
    exact disposed

/-- Calling `drain` or `stop` adds a call that covers every entry found in either map. -/
theorem covers_closing {closing : Action κ τ} (wf : s.toStore.WellFormed)
    (draining : closing = .drain ∨ closing = .stop)
    (stepped : s.step options closing = some next) :
    ∃ waits, next.drains = s.drains ++ [{ waits, fulfilled := false }] ∧
      ∀ key e, s.entries.get? key = some e ∨ s.orphans.get? key = some e →
        next.Covers waits e := by
  -- `stop` drains as well, once it has stopped the timers.
  rcases draining with rfl | rfl
  · cases stepped
    exact covers_drain wf
  · cases stepped
    exact covers_drain (s := s.setClosed.stopTimers) wf

/-- A drain fulfils when all that it waits for has resolved, and touches no entry. -/
theorem waited_of_drained {d : DrainId} {call : DrainCall}
    (stepped : s.step options (.drained d) = some next) (found : s.drains[d]? = some call) :
    call.waits.all s.waitResolved = true ∧ next.heap = s.heap := by
  -- The step is enabled only when its waits have resolved.
  obtain ⟨record, present, due⟩ := Option.bind_eq_some_iff.mp stepped
  cases found.symm.trans present
  obtain ⟨resolved, same⟩ := Option.ite_none_right_eq_some.mp due
  cases same
  exact ⟨resolved.2, rfl⟩

/--
When a drain fulfils in a pool that was not opened again, everything is disposed of exactly when
what the drain does not wait for has ended on its own.
-/
theorem allDisposed_iff (options : PoolOptions) (before after : List (Action κ τ))
    (closing : Action κ τ) {called fulfilled : State κ τ}
    (draining : closing = .drain ∨ closing = .stop)
    (ran : Runs.run (step options) (init options) before = some called)
    (unopened : Action.start ∉ after)
    (waited : Runs.run (step options) called
      (closing :: (after ++ [.drained called.drains.length])) = some fulfilled) :
    fulfilled.AllDisposed ↔ EndedElsewhere called fulfilled := by
  -- The run is cut into the call of the drain, what follows, and its fulfilment.
  obtain ⟨shut, stepped, waited⟩ := Runs.run_cons_eq_some.mp waited
  obtain ⟨last, ran', waited⟩ := Runs.run_append_eq_some.mp waited
  obtain ⟨_, final, same⟩ := Runs.run_cons_eq_some.mp waited
  cases same
  have core := core_run ran
  obtain ⟨waits, drains, covers⟩ := covers_closing core.store draining stepped
  -- The pool stays closed in between, so the waits are still those of the call.
  have stays := staysClosed_run (core_step core stepped) unopened ran'
  have sound : WaitsSound last.heap last.disposalWaits := waitsSound_run
    (Runs.run_append_eq_some.mpr ⟨called, ran, Runs.run_cons_eq_some.mpr ⟨shut, stepped, ran'⟩⟩)
  obtain ⟨call, found, named⟩ := stays.drains called.drains.length
    { waits, fulfilled := false } (by simp [drains])
  obtain ⟨resolved, heap⟩ := waited_of_drained final found
  rw [named] at resolved
  constructor
  · rintro ⟨disposed, none⟩
    exact ⟨fun e entry present _ _ => disposed entry (List.mem_of_getElem? present), none⟩
  · rintro ⟨others, none⟩
    refine ⟨fun entry inside => ?_, none⟩
    obtain ⟨e, present⟩ := List.mem_iff_getElem?.mp inside
    -- An entry that the call found in a map was waited for, and any other is assumed.
    by_cases live : e ∈ called.entries.values ∨ e ∈ called.orphans.values
    · have bound : ∃ key, called.entries.get? key = some e ∨ called.orphans.get? key = some e := by
        simpa only [OrderedMap.mem_values, exists_or] using live
      obtain ⟨key, bound⟩ := bound
      rw [heap] at present
      exact disposed_of_covers sound ((covers key e bound).mono stays.promises fun _ => id)
        resolved present
    · rw [not_or] at live
      exact others e entry present live.1 live.2

/-- A drain finds everything disposed of when an earlier eviction ends before it fulfils. -/
theorem allDisposed_iff_evicted :
    let options : PoolOptions := { max := 1 }
    let create (key a : Nat) : List (Action Nat Nat) :=
      [.acquire key, .obtain a, .create a .threw, .factoryCalled a, .factorySettled a (some a),
        .execSettled a (some a), .deliver a, .releaseHandle a]
    let before := create 7 0 ++ create 8 1
    ∃ fulfilled, Runs.run (step options) (init options) (before ++
      [.drain, .disposeSettled 0, .disposeSettled 1, .drained 0]) = some fulfilled ∧
        fulfilled.AllDisposed := by
  intro options create before
  -- It is the first drain, and the eviction that it does not wait for has ended before it fulfils.
  have first : ∀ called ∈ Runs.run (step options) (init options) before,
      called.drains.length = 0 := by decide
  have ended : ∀ called ∈ Runs.run (step options) (init options) before,
      ∀ fulfilled ∈ Runs.run (step options) called
        [.drain, .disposeSettled 0, .disposeSettled 1, .drained 0],
        EndedElsewhere called fulfilled := by decide
  obtain ⟨fulfilled, ran⟩ := Option.isSome_iff_exists.mp (show (Runs.run (step options)
    (init options) (before ++ [.drain, .disposeSettled 0, .disposeSettled 1,
      .drained 0])).isSome = true by decide)
  obtain ⟨called, ran', waited⟩ := Runs.run_append_eq_some.mp ran
  refine ⟨fulfilled, ran, (allDisposed_iff options before [.disposeSettled 0, .disposeSettled 1]
    .drain (.inl rfl) ran' (by simp) ?_).mpr (ended called ran' fulfilled waited)⟩
  rw [first called ran']
  exact waited

/-- A drain fulfils while the entry that was evicted before it is still being disposed of. -/
theorem allDisposed_evicting :
    let options : PoolOptions := { max := 1 }
    let create (key a : Nat) : List (Action Nat Nat) :=
      [.acquire key, .obtain a, .create a .threw, .factoryCalled a, .factorySettled a (some a),
        .execSettled a (some a), .deliver a, .releaseHandle a]
    ¬ ∀ fulfilled ∈ Runs.run (step options) (init options)
      (create 7 0 ++ create 8 1 ++ [.drain, .disposeSettled 1, .drained 0]),
        fulfilled.AllDisposed := by
  -- The entry of 7 is neither live nor orphaned when the drain is called.
  decide

end RefPool.State
