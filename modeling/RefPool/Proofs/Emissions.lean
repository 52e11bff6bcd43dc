import RefPool.Model.Emitter

/-! What each action does to an emitter and the calls of `emit` on it. -/

namespace RefPool

namespace TypedEventEmitter

variable {emitter : TypedEventEmitter} {type other : PoolEventType} {listener id : ListenerId}

/-- What a type's set holds is what a call of `emit` goes through. -/
theorem snapshot_eq (emitter : TypedEventEmitter) (type : PoolEventType) :
    emitter.snapshot type = ((emitter.listeners.get? type).getD .empty).members := by
  -- A type without a set has an empty one.
  cases found : emitter.listeners.get? type <;> simp [snapshot, found]

/-- Nobody is called twice by one call of `emit`. -/
theorem nodup_snapshot (emitter : TypedEventEmitter) (type : PoolEventType) :
    (emitter.snapshot type).Nodup :=
  -- The members of an ordered set are distinct.
  snapshot_eq emitter type ▸ OrderedSet.distinct _

/-- Registering a listener makes it one of those called for its type. -/
theorem mem_snapshot_on : id ∈ (emitter.on type listener).snapshot other ↔
    (other = type ∧ id = listener) ∨ id ∈ emitter.snapshot other := by
  -- Another type has the set that it had.
  rw [snapshot_eq, snapshot_eq]
  by_cases same : other = type
  · subst same
    rw [on, OrderedMap.get?_set_self, Option.getD_some, OrderedSet.mem_add]
    simp only [true_and]
  · rw [on, OrderedMap.get?_set_ne _ _ same]
    simp only [same, false_and, false_or]

/-- Unregistering a listener makes it none of those called for its type. -/
theorem mem_snapshot_off : id ∈ (emitter.off type listener).snapshot other ↔
    ¬(other = type ∧ id = listener) ∧ id ∈ emitter.snapshot other := by
  cases found : emitter.listeners.get? type with
  | none =>
    rw [off, found]
    -- A type without a set has no listeners.
    refine ⟨fun inside => ⟨?_, inside⟩, fun both => both.2⟩
    rintro ⟨rfl, rfl⟩
    simp [snapshot, found] at inside
  | some set =>
    by_cases same : other = type
    · subst same
      simp [snapshot, off, found, set.distinct.mem_erase_iff]
    · simp [snapshot, off, found, OrderedMap.get?_set_ne _ _ same, same]

end TypedEventEmitter

namespace EmitterSystem

variable {κ : Type} {s next : EmitterSystem κ} {action : EmitterAction κ}

/-- What an action does to an emitter and the calls on it. -/
inductive Move (s : EmitterSystem κ) : EmitterAction κ → EmitterSystem κ → Prop
  | registered (type : PoolEventType) (listener : ListenerId) :
      Move s (.on type listener) { s with emitter := s.emitter.on type listener }
  | unregistered (type : PoolEventType) (listener : ListenerId) :
      Move s (.off type listener) { s with emitter := s.emitter.off type listener }
  | cleared : Move s .removeAll { s with emitter := s.emitter.removeAll }
  | emitted (event : PoolEvent κ) :
      Move s (.emit event)
        { s with
          emitted := s.emitted ++ [event]
          emissions := ⟨s.emitted.length, event, s.emitter.snapshot event.type, false⟩ ::
            s.emissions }
  | called (id : Nat) (event : PoolEvent κ) (listener : ListenerId) (rest : List ListenerId)
      (outer : List (Emission κ))
      (innermost : s.emissions = ⟨id, event, listener :: rest, false⟩ :: outer) :
      Move s .call
        { s with
          calls := s.calls ++ [(id, listener)], emissions := ⟨id, event, rest, true⟩ :: outer }
  /-- The innermost `emit` goes on. -/
  | resumed {how : ListenerEnd} (holds : how ≠ .sinkThrew) (id : Nat) (event : PoolEvent κ)
      (rest : List ListenerId) (outer : List (Emission κ))
      (innermost : s.emissions = ⟨id, event, rest, true⟩ :: outer)
      (errors : List PoolEventType) :
      Move s (.ended how) { s with errors, emissions := ⟨id, event, rest, false⟩ :: outer }
  /-- The innermost `emit` is over, by an exception where listeners are left. -/
  | finished {action : EmitterAction κ} (emission : Emission κ) (outer : List (Emission κ))
      (innermost : s.emissions = emission :: outer) (errors : List PoolEventType)
      (how : action = .ended .sinkThrew ∨ action = .finish ∧ emission.rest = []) :
      Move s action { s with errors, emissions := outer }

/-- Every step is one of these moves. -/
theorem move_of_step (stepped : s.step action = some next) : Move s action next := by
  cases action with
  | on type listener =>
    simp only [step, Option.ite_none_right_eq_some, Option.some.injEq] at stepped
    exact stepped.2 ▸ .registered type listener
  | off type listener =>
    simp only [step, Option.ite_none_right_eq_some, Option.some.injEq] at stepped
    exact stepped.2 ▸ .unregistered type listener
  | removeAll =>
    simp only [step, Option.ite_none_right_eq_some, Option.some.injEq] at stepped
    exact stepped.2 ▸ .cleared
  | emit event =>
    simp only [step, Option.ite_none_right_eq_some, Option.some.injEq] at stepped
    exact stepped.2 ▸ .emitted event
  -- A listener is called from the innermost `emit`.
  | call =>
    simp only [step] at stepped
    split at stepped
    · rename_i id event listener rest outer innermost
      cases stepped
      exact .called id event listener rest outer innermost
    · cases stepped
  | ended how =>
    simp only [step] at stepped
    split at stepped
    · rename_i id event rest outer innermost
      -- Only an exception of the error sink leaves the `emit`.
      cases how with
      | returned =>
        cases stepped
        exact .resumed (by decide) id event rest outer innermost s.errors
      | threw =>
        cases stepped
        exact .resumed (by decide) id event rest outer innermost _
      | sinkThrew =>
        cases stepped
        exact .finished _ outer innermost _ (.inl rfl)
    · cases stepped
  -- An `emit` returns once it has called everybody.
  | finish =>
    simp only [step] at stepped
    split at stepped
    · rename_i id event outer innermost
      cases stepped
      exact .finished _ outer innermost s.errors (.inr ⟨rfl, rfl⟩)
    · cases stepped

end EmitterSystem

end RefPool
