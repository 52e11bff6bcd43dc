import RefPool.Proofs.Emissions
import RefPool.Lib.Runs
import RefPool.Lib.Sequence
import RefPool.Lib.Arena

/-! Every listener hears every event emitted while it is registered, once and in order. -/

namespace RefPool

variable {κ : Type}

/-- Who is registered for what, in the order of registration. -/
abbrev Registry := List (PoolEventType × ListenerId)

namespace Registry

/-- The listeners registered for a type. -/
def audience (registry : Registry) (type : PoolEventType) : List ListenerId :=
  registry.filterMap fun item => if item.1 = type then some item.2 else none

/-- Somebody is registered for a type, at the end unless it is registered already. -/
def join (registry : Registry) (type : PoolEventType) (listener : ListenerId) : Registry :=
  if (type, listener) ∈ registry then registry else registry ++ [(type, listener)]

/-- The registry after an action. -/
def after (registry : Registry) : EmitterAction κ → Registry
  | .on type listener => registry.join type listener
  | .off type listener => registry.erase (type, listener)
  | .removeAll => []
  | .emit _ | .call | .ended _ | .finish => registry

variable {registry : Registry} {type other : PoolEventType} {listener : ListenerId}

/-- Who is in the audience of a type is registered for it. -/
theorem mem_audience : listener ∈ registry.audience type ↔ (type, listener) ∈ registry := by
  -- The audience is a part of the registry, by type.
  simp [audience]

/-- Registering is seen by the audience of its own type only. -/
theorem audience_push : Registry.audience (registry ++ [(type, listener)]) other =
    if type = other then registry.audience other ++ [listener] else registry.audience other := by
  -- A registration for another type is filtered out.
  by_cases same : type = other <;> simp [audience, same]

/-- Unregistering is seen by the audience of its own type only. -/
theorem audience_erase : Registry.audience (registry.erase (type, listener)) other =
    if type = other then (registry.audience other).erase listener
    else registry.audience other := by
  -- The pair yields its listener to its own type, and nothing to another.
  unfold audience
  by_cases same : type = other
  · rw [if_pos same]
    refine Sequence.filterMap_erase (if_pos same) ?_
    rintro ⟨theirs, id⟩ - yields
    simp only [Option.ite_none_right_eq_some, Option.some.injEq] at yields
    exact Prod.ext (yields.1.trans same.symm) yields.2
  · rw [if_neg same]
    exact Sequence.filterMap_erase_of_none (if_neg same)

/-- Nobody is twice in an audience. -/
theorem nodup_audience (once : registry.Nodup) : (registry.audience type).Nodup := by
  refine once.filterMap ?_
  -- Two registrations for one type differ in the listener.
  rintro ⟨left, id⟩ ⟨right, name⟩ heard yields seen
  simp only [Option.mem_def, Option.ite_none_right_eq_some, Option.some.injEq] at yields seen
  exact Prod.ext (yields.1.trans seen.1.symm) (yields.2.trans seen.2.symm)

/-- Nobody is registered twice. -/
theorem nodup_after (once : registry.Nodup) (action : EmitterAction κ) :
    (registry.after action).Nodup := by
  -- Only a registration adds a listener, and only one that is not there yet.
  cases action with
  | on type listener =>
    simp only [after, join]
    split
    · exact once
    · rw [List.nodup_append]
      refine ⟨once, List.nodup_singleton _, fun item inside new there => ?_⟩
      rw [List.mem_singleton] at there
      exact fun same => absurd (there ▸ same ▸ inside) ‹_›
  | off type listener => exact once.erase _
  | removeAll => exact List.nodup_nil
  | emit | call | ended | finish => exact once

end Registry

/-- An emitter shows for each type who is registered for it. -/
def TypedEventEmitter.Shows (emitter : TypedEventEmitter) (registry : Registry) : Prop :=
  ∀ type, emitter.snapshot type = registry.audience type

namespace TypedEventEmitter

variable {emitter : TypedEventEmitter} {registry : Registry}

/-- The emitter still shows the registry once a listener is registered. -/
theorem Shows.on (shows : emitter.Shows registry) (type : PoolEventType)
    (listener : ListenerId) :
    (emitter.on type listener).Shows (registry.join type listener) := by
  intro other
  have before := shows other
  rw [snapshot_eq] at before ⊢
  -- The set of another type is the one that it was.
  by_cases same : other = type
  · subst same
    have inside : listener ∈ ((emitter.listeners.get? other).getD .empty).members ↔
        (other, listener) ∈ registry := by
      rw [before, Registry.mem_audience]
    simp only [TypedEventEmitter.on, OrderedMap.get?_set_self, Option.getD_some, Registry.join]
    by_cases present : (other, listener) ∈ registry
    · rw [OrderedSet.add_of_mem (inside.mpr present), if_pos present, before]
    · rw [OrderedSet.members_add_of_not_mem (fun there => present (inside.mp there)),
        if_neg present, Registry.audience_push, if_pos rfl, before]
  · simp only [TypedEventEmitter.on, OrderedMap.get?_set_ne _ _ same, Registry.join]
    split
    · exact before
    · rw [Registry.audience_push, if_neg (Ne.symm same), before]

/-- The emitter still shows the registry once a listener is unregistered. -/
theorem Shows.off (shows : emitter.Shows registry) (type : PoolEventType)
    (listener : ListenerId) :
    (emitter.off type listener).Shows (registry.erase (type, listener)) := by
  intro other
  have before := shows other
  rw [Registry.audience_erase]
  rw [snapshot_eq] at before ⊢
  cases found : emitter.listeners.get? type with
  | none =>
    -- Nobody is registered for a type without a set.
    simp only [TypedEventEmitter.off, found]
    split
    · rename_i same
      subst same
      rw [found] at before ⊢
      simp [← before]
    · exact before
  | some set =>
    simp only [TypedEventEmitter.off, found]
    by_cases same : other = type
    · subst same
      rw [found] at before
      simp [← before]
    · rw [OrderedMap.get?_set_ne _ _ same, if_neg (Ne.symm same), before]

/-- An emitter without listeners shows an empty registry. -/
theorem Shows.removeAll (emitter : TypedEventEmitter) : emitter.removeAll.Shows [] :=
  -- Both are empty.
  fun _ => rfl

end TypedEventEmitter

/-- An emitter, with who is registered and who was when each event was emitted. -/
structure Observed (κ : Type) where
  system : EmitterSystem κ
  registry : Registry
  /-- The audience of each event, as of the call of `emit`. -/
  audiences : List (List ListenerId)

namespace Observed

/-- Nobody is registered at first. -/
def init : Observed κ := ⟨.init, [], []⟩

/-- The effect of an action, where it can happen. -/
def step (s : Observed κ) (action : EmitterAction κ) : Option (Observed κ) :=
  (s.system.step action).map fun system =>
    { system
      registry := s.registry.after action
      audiences := match action with
        | .emit event => s.audiences ++ [s.registry.audience event.type]
        | _ => s.audiences }

end Observed

namespace EmitterSystem

/-- The listeners that were called for an event, in the order of the calls. -/
def told (calls : List (Nat × ListenerId)) (id : Nat) : List ListenerId :=
  calls.filterMap fun call => if call.1 = id then some call.2 else none

/-- The listeners still to be called for an event: none once its `emit` is over. -/
def left (emissions : List (Emission κ)) (id : Nat) : List ListenerId :=
  ((emissions.find? fun emission => emission.id = id).map Emission.rest).getD []

/-- A call is one for its own event. -/
theorem told_push (calls : List (Nat × ListenerId)) (id other : Nat) (listener : ListenerId) :
    told (calls ++ [(id, listener)]) other =
      told calls other ++ if id = other then [listener] else [] := by
  -- A call for another event is filtered out.
  by_cases same : id = other <;> simp [told, same]

/-- Nobody was called for an event that no call is recorded for. -/
theorem told_of_lt {calls : List (Nat × ListenerId)} {id : Nat}
    (below : ∀ call ∈ calls, call.1 < id) : told calls id = [] := by
  -- All recorded calls are for older events.
  simp only [told, List.filterMap_eq_nil_iff]
  exact fun call inside => if_neg (Nat.ne_of_lt (below call inside))

/-- The innermost `emit` has its own listeners to call. -/
theorem left_cons (emission : Emission κ) (outer : List (Emission κ)) (id : Nat) :
    left (emission :: outer) id = if emission.id = id then emission.rest else left outer id := by
  -- The search ends at the innermost `emit` if the event is its own.
  by_cases same : emission.id = id <;> simp [left, same]

/-- Nothing is left to do for an event whose `emit` is over. -/
theorem left_of_not_mem {emissions : List (Emission κ)} {id : Nat}
    (finished : id ∉ emissions.map Emission.id) : left emissions id = [] := by
  -- The search finds no `emit` for the event.
  have none_ : emissions.find? (fun emission => emission.id = id) = none := by
    rw [List.find?_eq_none]
    intro emission inside
    simpa using fun same => finished (List.mem_map.mpr ⟨emission, inside, same⟩)
  simp [left, none_]

/-- The error sink does not throw while listeners are still to be called. -/
def SinkHolds (s : EmitterSystem κ) : EmitterAction κ → Prop
  | .ended .sinkThrew => ∀ emission ∈ s.emissions.head?, emission.rest = []
  | _ => True

/-- An action takes listeners from those to be called to those called, or drops them. -/
theorem Move.heard {s next : EmitterSystem κ} {action : EmitterAction κ}
    (move : Move s action next) (numbered : (s.emissions.map Emission.id).Nodup) {id : Nat}
    (old : id < s.emitted.length) :
    told next.calls id ++ left next.emissions id <+: told s.calls id ++ left s.emissions id ∧
      (s.SinkHolds action →
        told next.calls id ++ left next.emissions id = told s.calls id ++ left s.emissions id) := by
  -- Where the two are the same there is nothing to drop.
  suffices settled : told next.calls id ++ left next.emissions id =
        told s.calls id ++ left s.emissions id ∨
      ¬ s.SinkHolds action ∧
        told next.calls id ++ left next.emissions id <+: told s.calls id ++ left s.emissions id by
    rcases settled with same | ⟨fails, shorter⟩
    · exact ⟨same ▸ List.prefix_refl _, fun _ => same⟩
    · exact ⟨shorter, fun holds => absurd holds fails⟩
  cases move with
  | registered | unregistered | cleared => exact .inl rfl
  | emitted event =>
    -- The new event has a number of its own.
    rw [left_cons, if_neg (Nat.ne_of_gt old)]
    exact .inl rfl
  | called number event listener rest outer innermost =>
    rw [told_push, innermost, left_cons, left_cons]
    by_cases same : number = id <;> simp [same]
  | resumed holds number event rest outer innermost errors =>
    rw [innermost, left_cons, left_cons]
    exact .inl rfl
  | finished emission outer innermost errors how =>
    rw [innermost, List.map_cons, List.nodup_cons] at numbered
    rw [innermost, left_cons]
    by_cases same : emission.id = id
    · rw [if_pos same, left_of_not_mem (same ▸ numbered.1), List.append_nil]
      -- What is left of the event is dropped, and this is nothing unless the sink threw.
      by_cases nothing : emission.rest = []
      · simp [nothing]
      · refine .inr ⟨fun holds => ?_, List.prefix_append _ _⟩
        rcases how with rfl | ⟨-, all⟩
        · exact nothing (holds emission (by rw [innermost]; rfl))
        · exact nothing all
    · rw [if_neg same]
      exact .inl rfl

end EmitterSystem

namespace Observed

open EmitterSystem (told told_push told_of_lt left left_cons left_of_not_mem)

/-- What was called for each event, and is still to be called, is its audience up to a point. -/
structure Sound (s : Observed κ) : Prop where
  shows : s.system.emitter.Shows s.registry
  registered : s.registry.Nodup
  audiences : s.audiences.length = s.system.emitted.length
  once : ∀ audience ∈ s.audiences, audience.Nodup
  numbered : (s.system.emissions.map Emission.id).Nodup
  begun : ∀ id ∈ s.system.emissions.map Emission.id, id < s.system.emitted.length
  recorded : ∀ call ∈ s.system.calls, call.1 < s.system.emitted.length
  heard : ∀ (id : Nat) audience, s.audiences[id]? = some audience →
    told s.system.calls id ++ left s.system.emissions id <+: audience

/-- Each event had an audience when it was emitted, and it is called once each and in order. -/
structure Orderly (s : Observed κ) : Prop where
  audiences : s.audiences.length = s.system.emitted.length
  once : ∀ audience ∈ s.audiences, audience.Nodup
  heard : ∀ (id : Nat) audience, s.audiences[id]? = some audience →
    told s.system.calls id <+: audience

/-- What was called for each event, and is still to be called, is all of its audience. -/
def Delivers (s : Observed κ) : Prop :=
  ∀ (id : Nat) audience, s.audiences[id]? = some audience →
    told s.system.calls id ++ left s.system.emissions id = audience

/-- The error sink does not throw while listeners are still to be called. -/
def SinkHolds (s : Observed κ) (action : EmitterAction κ) : Prop := s.system.SinkHolds action

variable {s next : Observed κ} {action : EmitterAction κ}

/-- Only an event that was emitted has an audience. -/
theorem Sound.emitted_of_some (sound : Sound s) {id : Nat} {audience : List ListenerId}
    (found : s.audiences[id]? = some audience) : id < s.system.emitted.length :=
  -- There are as many audiences as events.
  sound.audiences ▸ (List.getElem?_eq_some_iff.mp found).1

/-- Who was called for an event is the beginning of its audience. -/
theorem Sound.orderly (sound : Sound s) : Orderly s where
  -- Those still to be called come after those who were.
  audiences := sound.audiences
  once := sound.once
  heard := fun id audience found => (List.prefix_append _ _).trans (sound.heard id audience found)

/-- An audience was there before, or is that of the new event and still to be called. -/
theorem audience_of_step (sound : Sound s) (stepped : s.step action = some next) {id : Nat}
    {audience : List ListenerId} (found : next.audiences[id]? = some audience) :
    s.audiences[id]? = some audience ∨
      told next.system.calls id ++ left next.system.emissions id = audience := by
  obtain ⟨system, moved, rfl⟩ := Option.map_eq_some_iff.mp stepped
  cases action with
  | emit event =>
    rcases Arena.getElem?_push_cases found with ⟨fresh, rfl⟩ | old
    · right
      -- Nobody was called for the new event yet.
      cases EmitterSystem.move_of_step moved with
      | emitted =>
        rw [fresh, sound.audiences, told_of_lt sound.recorded, left_cons, if_pos rfl,
          List.nil_append, sound.shows]
      | finished emission outer innermost errors how => simp at how
    · exact .inl old
  | on | off | removeAll | call | ended | finish => exact .inl found

/-- What was called or to be called for an event before is so later, up to a point. -/
theorem heard_of_step (sound : Sound s) (stepped : s.step action = some next) {id : Nat}
    {audience : List ListenerId} (before : s.audiences[id]? = some audience) :
    told next.system.calls id ++ left next.system.emissions id <+:
        told s.system.calls id ++ left s.system.emissions id ∧
      (SinkHolds s action →
        told next.system.calls id ++ left next.system.emissions id =
          told s.system.calls id ++ left s.system.emissions id) := by
  -- The move says so, for an event that is numbered below the next one.
  obtain ⟨system, moved, rfl⟩ := Option.map_eq_some_iff.mp stepped
  exact (EmitterSystem.move_of_step moved).heard sound.numbered (sound.emitted_of_some before)

/-- An emitter keeps its bookkeeping through every action. -/
theorem sound_step (sound : Sound s) (stepped : s.step action = some next) : Sound next := by
  have heard (id : Nat) (audience : List ListenerId)
      (found : next.audiences[id]? = some audience) :
      told next.system.calls id ++ left next.system.emissions id <+: audience := by
    rcases audience_of_step sound stepped found with before | all
    · exact (heard_of_step sound stepped before).1.trans (sound.heard id audience before)
    · exact all ▸ List.prefix_refl _
  -- The other parts are read off the move that the emitter has made.
  obtain ⟨system, moved, rfl⟩ := Option.map_eq_some_iff.mp stepped
  have registered := Registry.nodup_after sound.registered action
  have numbered := sound.numbered
  have begun := sound.begun
  cases EmitterSystem.move_of_step moved with
  | registered type listener =>
    exact ⟨sound.shows.on type listener, registered, sound.audiences, sound.once, numbered, begun,
      sound.recorded, heard⟩
  | unregistered type listener =>
    exact ⟨sound.shows.off type listener, registered, sound.audiences, sound.once, numbered, begun,
      sound.recorded, heard⟩
  | cleared =>
    exact ⟨.removeAll s.system.emitter, registered, sound.audiences, sound.once, numbered,
      begun, sound.recorded, heard⟩
  -- A new event has the number that is next, and its audience is those registered now.
  | emitted event =>
    refine ⟨sound.shows, registered, ?_, ?_, ?_, ?_, ?_, heard⟩
    · simp [sound.audiences]
    · intro audience inside
      rcases List.mem_append.mp inside with old | new
      · exact sound.once audience old
      · rw [List.mem_singleton.mp new]
        exact Registry.nodup_audience sound.registered
    · rw [List.map_cons, List.nodup_cons]
      exact ⟨fun inside => absurd (begun _ inside) (Nat.lt_irrefl _), numbered⟩
    · intro id inside
      rw [List.length_append, List.length_singleton]
      rcases List.mem_cons.mp inside with rfl | old
      · exact Nat.lt_succ_self _
      · exact Nat.lt_succ_of_lt (begun id old)
    · intro call inside
      rw [List.length_append]
      exact Nat.lt_add_right _ (sound.recorded call inside)
  -- The call is recorded for the innermost event.
  | called id event listener rest outer innermost =>
    rw [innermost] at numbered begun
    refine ⟨sound.shows, registered, sound.audiences, sound.once, numbered, begun, ?_, heard⟩
    intro call inside
    rcases List.mem_append.mp inside with old | new
    · exact sound.recorded call old
    · rw [List.mem_singleton.mp new]
      exact begun id List.mem_cons_self
  | resumed holds id event rest outer innermost errors =>
    rw [innermost] at numbered begun
    exact ⟨sound.shows, registered, sound.audiences, sound.once, numbered, begun, sound.recorded,
      heard⟩
  -- The innermost `emit` returns to the one outside it.
  | finished emission outer innermost errors how =>
    rw [innermost, List.map_cons] at numbered begun
    have numbered' := (List.nodup_cons.mp numbered).2
    have begun' := fun id inside => begun id (List.mem_cons_of_mem _ inside)
    rcases how with rfl | ⟨rfl, -⟩
    · exact ⟨sound.shows, registered, sound.audiences, sound.once, numbered', begun',
        sound.recorded, heard⟩
    · exact ⟨sound.shows, registered, sound.audiences, sound.once, numbered', begun',
        sound.recorded, heard⟩

/-- A new emitter has nothing to deliver. -/
theorem sound_init : Sound (init : Observed κ) := by
  -- Nothing was emitted, called or registered.
  refine ⟨fun _ => rfl, List.nodup_nil, rfl, ?_, List.nodup_nil, ?_, ?_, ?_⟩ <;>
    simp [init, EmitterSystem.init]

/-- Every listener is called or still to be called after an action of a sink that holds. -/
theorem delivers_step (sound : Sound s) (delivers : Delivers s) (holds : SinkHolds s action)
    (stepped : s.step action = some next) : Delivers next := by
  -- What was promised to an old audience is kept, and a new one is still to be called.
  intro id audience found
  rcases audience_of_step sound stepped found with before | all
  · exact ((heard_of_step sound stepped before).2 holds).trans (delivers id audience before)
  · exact all

/-- Listeners that were left out are missing after the step that left them out. -/
theorem holds_of_delivers (sound : Sound s) (delivers : Delivers s)
    (stepped : s.step action = some next) (later : Delivers next) : SinkHolds s action := by
  obtain ⟨system, moved, rfl⟩ := Option.map_eq_some_iff.mp stepped
  cases action with
  | on | off | removeAll | emit | call | finish => trivial
  | ended how =>
    cases how with
    | returned | threw => trivial
    | sinkThrew =>
      simp only [EmitterSystem.step] at moved
      split at moved
      case h_2 => cases moved
      rename_i id event rest outer innermost
      cases moved
      -- The event had an audience, which is not complete without the rest.
      have numbered := sound.numbered
      have begun := sound.begun
      rw [innermost, List.map_cons] at numbered begun
      have old : id < s.audiences.length := sound.audiences ▸ begun id List.mem_cons_self
      have before := delivers id _ (List.getElem?_eq_getElem old)
      have after := later id _ (List.getElem?_eq_getElem old)
      rw [innermost, left_cons, if_pos rfl, ← after,
        left_of_not_mem (List.nodup_cons.mp numbered).1] at before
      intro emission head
      rw [innermost, List.head?_cons, Option.mem_def, Option.some.injEq] at head
      exact head ▸ List.append_cancel_left before

/--
In every run each event is heard by those who were registered when it was emitted, once each and
in the order of registration, and by all of them exactly if the error sink does not throw while
some are still to be called, whatever the listeners do.
-/
theorem delivery (actions : List (EmitterAction κ)) :
    Runs.Throughout step Orderly init actions ∧
      (Runs.Throughout step Delivers init actions ↔ Runs.Guarded step SinkHolds init actions) := by
  have sound : Runs.Throughout step Sound (init : Observed κ) actions :=
    Runs.throughout_of_invariant Sound (fun s a next sound stepped => sound_step sound stepped)
      sound_init actions
  -- An event that is cut short is noticed at the very step in which the sink throws.
  refine ⟨sound.mono fun s sound => sound.orderly, fun all => ?_, fun met => ?_⟩
  · exact all.guarded (fun s a next sound stepped => sound_step sound stepped)
      (fun s a next sound delivers stepped later =>
        holds_of_delivers sound delivers stepped later) sound_init
  · refine (met.throughout (fun s => Sound s ∧ Delivers s)
      (fun s a next ⟨sound, delivers⟩ holds stepped =>
        ⟨sound_step sound stepped, delivers_step sound delivers holds stepped⟩)
      ⟨sound_init, ?_⟩).mono fun s both => both.2
    intro id audience found
    simp [init] at found

end Observed

end RefPool
