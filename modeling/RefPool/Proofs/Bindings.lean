import RefPool.Model.Binding
import RefPool.Proofs.Emissions
import RefPool.Lib.Runs

/-! A bound exporter counts every event emitted while it is bound, whatever other listeners do. -/

namespace RefPool

namespace Binding

variable {κ σ : Type} {exporter : Exporter κ σ} {own : PoolEventType → ListenerId}
  {s next : Binding κ σ} {action : BindingAction κ}

/-- The events that listeners of the exporter are still to be called for. -/
def pending (exporter : Exporter κ σ) (own : PoolEventType → ListenerId) (s : Binding κ σ) :
    List (PoolEvent κ) :=
  s.system.emissions.filterMap fun emission =>
    if emission.event.type ∈ exporter.topics ∧ own emission.event.type ∈ emission.rest then
      some emission.event
    else none

/-- An event is emitted while the exporter is bound. -/
def emits (s : Binding κ σ) : BindingAction κ → List (PoolEvent κ)
  | .emitter (.emit event) => if s.unbound then [] else [event]
  | _ => []

/-- What is emitted while the exporter is bound, and of a type that it listens to. -/
def due (exporter : Exporter κ σ) (s : Binding κ σ) (action : BindingAction κ) :
    List (PoolEvent κ) :=
  (s.emits action).filter fun event => event.type ∈ exporter.topics

/-- Nobody else has the exporter's listeners, and an error sink that throws passes over none. -/
def Undisturbed (exporter : Exporter κ σ) (own : PoolEventType → ListenerId)
    (s : Binding κ σ) : BindingAction κ → Prop
  | .emitter (.on type listener) | .emitter (.off type listener) =>
    type ∈ exporter.topics → listener ≠ own type
  | .emitter .removeAll => False
  | .emitter (.ended .sinkThrew) =>
    ∀ emission ∈ s.system.emissions.head?, own emission.event.type ∉ emission.rest
  | _ => True

/-- Whether an action leaves the exporter's listeners alone can be checked. -/
instance decidableUndisturbed (exporter : Exporter κ σ) (own : PoolEventType → ListenerId)
    (s : Binding κ σ) : ∀ action, Decidable (Undisturbed exporter own s action)
  | .emitter (.on type listener) | .emitter (.off type listener) =>
    inferInstanceAs (Decidable (type ∈ exporter.topics → listener ≠ own type))
  | .emitter .removeAll => .isFalse not_false
  | .emitter (.ended .sinkThrew) =>
    inferInstanceAs
      (Decidable (∀ emission ∈ s.system.emissions.head?, own emission.event.type ∉ emission.rest))
  | .emitter (.ended .returned) | .emitter (.ended .threw) | .emitter (.emit _)
  | .emitter .call | .emitter .finish | .unbind => .isTrue trivial

/-- The exporter's listeners are registered as long as it is bound. -/
structure Wired (exporter : Exporter κ σ) (own : PoolEventType → ListenerId)
    (s : Binding κ σ) : Prop where
  listens : ∀ topic ∈ exporter.topics,
    own topic ∈ s.system.emitter.snapshot topic ↔ s.unbound = false
  once : ∀ emission ∈ s.system.emissions, emission.rest.Nodup

/-- Subscribing to a list of types is subscribing to each. -/
theorem mem_snapshot_bound (own : PoolEventType → ListenerId) (topics : List PoolEventType)
    (emitter : TypedEventEmitter) (topic : PoolEventType) (id : ListenerId) :
    id ∈ (topics.foldl (fun emitter topic => emitter.on topic (own topic)) emitter).snapshot topic ↔
      (topic ∈ topics ∧ id = own topic) ∨ id ∈ emitter.snapshot topic := by
  -- One type after the other.
  induction topics generalizing emitter with
  | nil => simp
  | cons first rest ih =>
    rw [List.foldl_cons, ih, TypedEventEmitter.mem_snapshot_on, List.mem_cons]
    by_cases same : topic = first
    · subst same
      simp only [true_and, true_or]
      tauto
    · simp [same]

/-- Unsubscribing from a list of types is unsubscribing from each. -/
theorem mem_snapshot_unbound (own : PoolEventType → ListenerId) (topics : List PoolEventType)
    (emitter : TypedEventEmitter) (topic : PoolEventType) (id : ListenerId) :
    id ∈ (topics.foldl (fun emitter topic => emitter.off topic (own topic)) emitter).snapshot
        topic ↔
      ¬(topic ∈ topics ∧ id = own topic) ∧ id ∈ emitter.snapshot topic := by
  -- One type after the other.
  induction topics generalizing emitter with
  | nil => simp
  | cons first rest ih =>
    rw [List.foldl_cons, ih, TypedEventEmitter.mem_snapshot_off, List.mem_cons]
    by_cases same : topic = first
    · subst same
      simp only [true_and, true_or]
      tauto
    · simp [same]

/-- The exporter's listeners stay registered through every action that leaves them alone. -/
theorem wired_step (wired : Wired exporter own s) (met : Undisturbed exporter own s action)
    (stepped : s.step exporter own action = some next) : Wired exporter own next := by
  cases action with
  | unbind =>
    simp only [step, Option.ite_none_right_eq_some] at stepped
    obtain ⟨-, stepped⟩ := stepped
    split at stepped <;> cases stepped
    · exact wired
    · refine ⟨fun topic inside => ?_, wired.once⟩
      simp [mem_snapshot_unbound, inside]
  | emitter inner =>
    obtain ⟨system, moved, rfl⟩ := Option.map_eq_some_iff.mp stepped
    cases EmitterSystem.move_of_step moved with
    | registered type listener =>
      refine ⟨fun topic inside => ?_, wired.once⟩
      rw [TypedEventEmitter.mem_snapshot_on, wired.listens topic inside]
      -- The listener is somebody else's.
      have other : ¬(topic = type ∧ own topic = listener) := by
        rintro ⟨rfl, rfl⟩
        exact met inside rfl
      simp [other]
    | unregistered type listener =>
      refine ⟨fun topic inside => ?_, wired.once⟩
      rw [TypedEventEmitter.mem_snapshot_off, wired.listens topic inside]
      have other : ¬(topic = type ∧ own topic = listener) := by
        rintro ⟨rfl, rfl⟩
        exact met inside rfl
      simp [other]
    -- Nobody clears the emitter while the exporter is bound.
    | cleared => exact met.elim
    -- A snapshot has no listener twice, and what is left of it has none either.
    | emitted event =>
      refine ⟨wired.listens, fun emission inside => ?_⟩
      rcases List.mem_cons.mp inside with rfl | old
      · exact s.system.emitter.nodup_snapshot event.type
      · exact wired.once emission old
    | called id event listener rest outer innermost =>
      have once := wired.once
      rw [innermost] at once
      refine ⟨wired.listens, fun emission inside => ?_⟩
      rcases List.mem_cons.mp inside with rfl | old
      · exact (List.nodup_cons.mp (once _ List.mem_cons_self)).2
      · exact once emission (List.mem_cons_of_mem _ old)
    | resumed holds id event rest outer innermost errors =>
      have once := wired.once
      rw [innermost] at once
      refine ⟨wired.listens, fun emission inside => ?_⟩
      rcases List.mem_cons.mp inside with rfl | old
      · exact once ⟨id, event, rest, true⟩ List.mem_cons_self
      · exact once emission (List.mem_cons_of_mem _ old)
    | finished emission outer innermost errors how =>
      have once := wired.once
      rw [innermost] at once
      exact ⟨wired.listens, fun other inside => once other (List.mem_cons_of_mem _ inside)⟩

/-- An event that is due is heard, or the exporter is still to be called for it. -/
theorem balanced_step (wired : Wired exporter own s) (met : Undisturbed exporter own s action)
    (stepped : s.step exporter own action = some next) :
    (s.hears exporter own action ++ next.pending exporter own).Perm
      (s.pending exporter own ++ s.due exporter action) := by
  cases action with
  | unbind =>
    simp only [step, Option.ite_none_right_eq_some] at stepped
    obtain ⟨-, stepped⟩ := stepped
    split at stepped <;> cases stepped <;> simp [hears, due, emits, pending]
  | emitter inner =>
    obtain ⟨system, moved, rfl⟩ := Option.map_eq_some_iff.mp stepped
    cases EmitterSystem.move_of_step moved with
    | registered | unregistered => simp [hears, due, emits, pending]
    | cleared => exact met.elim
    | emitted event =>
      -- The exporter is to be called for it exactly if it is bound.
      by_cases topic : event.type ∈ exporter.topics
      · have listens := wired.listens _ topic
        cases unbound : s.unbound with
        | false =>
          rw [unbound] at listens
          simp only [hears, due, emits, pending, unbound, Bool.false_eq_true, if_false, topic,
            decide_true, List.filter_cons_of_pos, List.filter_nil, List.nil_append, true_and,
            List.filterMap_cons, if_pos (listens.mpr rfl)]
          exact (List.perm_append_singleton event _).symm
        | true =>
          rw [unbound] at listens
          simp [hears, due, emits, pending, topic, listens, unbound]
      · cases unbound : s.unbound <;> simp [hears, due, emits, pending, topic, unbound]
    | called id event listener rest outer innermost =>
      -- The exporter's listener is called once for the event.
      have once := (List.nodup_cons.mp (wired.once _ (innermost ▸ List.mem_cons_self))).1
      simp only [hears, due, emits, pending, innermost, List.filter_nil, List.append_nil,
        List.filterMap_cons, List.mem_cons]
      by_cases topic : event.type ∈ exporter.topics
      · by_cases mine : listener = own event.type
        · subst mine
          simp [topic, once]
        · simp [topic, mine, Ne.symm mine]
      · simp [topic]
    | resumed holds id event rest outer innermost errors =>
      simp [hears, due, emits, pending, innermost, List.filterMap_cons]
    | finished emission outer innermost errors how =>
      -- What is left of the event does not include the exporter.
      have passed : own emission.event.type ∉ emission.rest := by
        rcases how with rfl | ⟨-, all⟩
        · exact met emission (by rw [innermost]; rfl)
        · simp [all]
      rcases how with rfl | ⟨rfl, -⟩ <;> simp [hears, due, emits, pending, innermost, passed]

/-- Nobody ever registered a listener of the exporter. -/
structure Unheard (exporter : Exporter κ σ) (own : PoolEventType → ListenerId)
    (system : EmitterSystem κ) : Prop where
  registered : ∀ topic ∈ exporter.topics, own topic ∉ system.emitter.snapshot topic
  called : ∀ emission ∈ system.emissions, emission.event.type ∈ exporter.topics →
    own emission.event.type ∉ emission.rest
  once : ∀ emission ∈ system.emissions, emission.rest.Nodup

/-- A listener that nobody registers stays unheard. -/
theorem unheard_step {system after : EmitterSystem κ} {action : EmitterAction κ}
    (unheard : Unheard exporter own system)
    (fresh : ∀ topic ∈ exporter.topics, action ≠ .on topic (own topic))
    (stepped : system.step action = some after) : Unheard exporter own after := by
  obtain ⟨registered, called, once⟩ := unheard
  -- A listener comes to be called only by being registered first.
  cases EmitterSystem.move_of_step stepped with
  | registered type listener =>
    refine ⟨fun topic inside => ?_, called, once⟩
    rw [TypedEventEmitter.mem_snapshot_on]
    rintro (⟨rfl, rfl⟩ | old)
    · exact fresh topic inside rfl
    · exact registered topic inside old
  | unregistered type listener =>
    refine ⟨fun topic inside => ?_, called, once⟩
    rw [TypedEventEmitter.mem_snapshot_off]
    exact fun both => registered topic inside both.2
  | cleared => exact ⟨fun _ _ => List.not_mem_nil, called, once⟩
  -- An event is sent to those registered, and what is left of them gets shorter.
  | emitted event =>
    refine ⟨registered, fun emission inside topic => ?_, fun emission inside => ?_⟩
    · rcases List.mem_cons.mp inside with rfl | old
      · exact registered event.type topic
      · exact called emission old topic
    · rcases List.mem_cons.mp inside with rfl | old
      · exact system.emitter.nodup_snapshot event.type
      · exact once emission old
  | called id event listener rest outer innermost =>
    rw [innermost] at called once
    refine ⟨registered, fun emission inside topic => ?_, fun emission inside => ?_⟩
    · rcases List.mem_cons.mp inside with rfl | old
      · exact fun later => called _ List.mem_cons_self topic (List.mem_cons_of_mem _ later)
      · exact called emission (List.mem_cons_of_mem _ old) topic
    · rcases List.mem_cons.mp inside with rfl | old
      · exact (List.nodup_cons.mp (once _ List.mem_cons_self)).2
      · exact once emission (List.mem_cons_of_mem _ old)
  | resumed holds id event rest outer innermost errors =>
    rw [innermost] at called once
    refine ⟨registered, fun emission inside topic => ?_, fun emission inside => ?_⟩
    · rcases List.mem_cons.mp inside with rfl | old
      · exact called ⟨id, event, rest, true⟩ List.mem_cons_self topic
      · exact called emission (List.mem_cons_of_mem _ old) topic
    · rcases List.mem_cons.mp inside with rfl | old
      · exact once ⟨id, event, rest, true⟩ List.mem_cons_self
      · exact once emission (List.mem_cons_of_mem _ old)
  | finished emission outer innermost errors how =>
    rw [innermost] at called once
    exact ⟨registered, fun other inside => called other (List.mem_cons_of_mem _ inside),
      fun other inside => once other (List.mem_cons_of_mem _ inside)⟩

/-- An exporter that is bound has its listeners registered, and heard of nothing yet. -/
theorem wired_bind {system : EmitterSystem κ} (unheard : Unheard exporter own system) :
    Wired exporter own (bind exporter own system) ∧
      (bind exporter own system).pending exporter own = [] := by
  -- Its listeners are new to the emitter, so no emit under way is about to call them.
  refine ⟨⟨fun topic inside => ?_, unheard.once⟩, ?_⟩
  · simp [bind, mem_snapshot_bound, inside]
  · simp only [pending, bind, List.filterMap_eq_nil_iff, ite_eq_right_iff, reduceCtorEq,
      imp_false, not_and]
    exact unheard.called

/-- The events that the exporter heard along a run are those that were due and are not pending. -/
theorem heard_of_run {before : List (EmitterAction κ)} {after : List (BindingAction κ)}
    {system : EmitterSystem κ} {last : Binding κ σ}
    (ran : Runs.run EmitterSystem.step .init before = some system)
    (fresh : ∀ topic ∈ exporter.topics, .on topic (own topic) ∉ before)
    (met : Runs.Guarded (step exporter own) (Undisturbed exporter own) (bind exporter own system)
      after)
    (done : Runs.run (step exporter own) (bind exporter own system) after = some last) :
    let heard := Runs.transcript (step exporter own) (fun s action _ => s.hears exporter own action)
      (bind exporter own system) after
    let due := Runs.transcript (step exporter own) (fun s action _ => s.due exporter action)
      (bind exporter own system) after
    (heard ++ last.pending exporter own).Perm due ∧
      last.metrics = heard.foldl exporter.hear exporter.start := by
  -- Nothing of the exporter is registered when it is bound.
  have unheard : Unheard exporter own system := by
    have guarded : Runs.Guarded EmitterSystem.step
        (fun _ action => ∀ topic ∈ exporter.topics, action ≠ .on topic (own topic)) .init before :=
      Runs.guarded_of_forall fun action inside topic listens same =>
        fresh topic listens (same ▸ inside)
    refine guarded.run_invariant (Unheard exporter own)
      (fun s a next unheard fresh stepped => unheard_step unheard fresh stepped) ?_ ran
    refine ⟨?_, ?_, ?_⟩ <;>
      simp [EmitterSystem.init, TypedEventEmitter.new, TypedEventEmitter.snapshot]
  obtain ⟨wired, nothing⟩ := wired_bind unheard
  intro heard due
  constructor
  -- What was heard and what is still to be heard is what was due.
  · have balance : (heard ++ last.pending exporter own).Perm
        ((bind exporter own system).pending exporter own ++ due) :=
      met.balance (Wired exporter own) (pending exporter own)
        (fun s a next wired met stepped => wired_step wired met stepped)
        (fun s a next wired met stepped => balanced_step wired met stepped) wired done
    rwa [nothing, List.nil_append] at balance
  · refine Runs.foldl_transcript Binding.metrics exporter.hear
      (fun s action next stepped => ?_) done
    cases action with
    | unbind =>
      simp only [step, Option.ite_none_right_eq_some] at stepped
      obtain ⟨-, stepped⟩ := stepped
      split at stepped <;> cases stepped <;> rfl
    | emitter inner =>
      obtain ⟨system, moved, rfl⟩ := Option.map_eq_some_iff.mp stepped
      rfl

end Binding

/-- The part of what an exporter keeps that counts events, in whatever order it hears them. -/
structure Exporter.Counts {κ σ : Type} (exporter : Exporter κ σ) (counts : σ → σ) : Prop where
  ignores : ∀ metrics event, event.type ∉ exporter.topics → exporter.hear metrics event = metrics
  counted : ∀ metrics event,
    counts (exporter.hear (counts metrics) event) = counts (exporter.hear metrics event)
  commutes : ∀ metrics first second,
    counts (exporter.hear (exporter.hear metrics first) second) =
      counts (exporter.hear (exporter.hear metrics second) first)

namespace Exporter

variable {κ σ : Type} {exporter : Exporter κ σ} {counts : σ → σ}

/-- The counts are those of the events of the types that the exporter listens to. -/
theorem Counts.foldl_filter (laws : Counts exporter counts) (news : List (PoolEvent κ))
    (metrics : σ) :
    (news.filter fun event => event.type ∈ exporter.topics).foldl exporter.hear metrics =
      news.foldl exporter.hear metrics := by
  -- An event of another type changes nothing.
  induction news generalizing metrics with
  | nil => rfl
  | cons event rest ih =>
    by_cases topic : event.type ∈ exporter.topics
    · simp only [List.filter_cons, topic, decide_true, if_true, List.foldl_cons, ih]
    · simp only [List.filter_cons, topic, decide_false, Bool.false_eq_true, if_false,
        List.foldl_cons, ih, laws.ignores metrics event topic]

/-- Counting does without what is not counted. -/
theorem Counts.foldl_counts (laws : Counts exporter counts) (news : List (PoolEvent κ))
    (metrics : σ) :
    counts (news.foldl exporter.hear metrics) =
      news.foldl (fun metrics event => counts (exporter.hear metrics event)) (counts metrics) := by
  -- By induction on the events; counting goes through one event at a time.
  induction news generalizing metrics with
  | nil => rfl
  | cons event rest ih => rw [List.foldl_cons, ih, List.foldl_cons, laws.counted]

/-- The order of the events does not matter to the counts. -/
theorem Counts.foldl_perm (laws : Counts exporter counts) {news others : List (PoolEvent κ)}
    (same : news.Perm others) (metrics : σ) :
    counts (news.foldl exporter.hear metrics) = counts (others.foldl exporter.hear metrics) := by
  -- Counting two events commutes, which is all that reordering asks for.
  rw [laws.foldl_counts, laws.foldl_counts]
  refine @List.Perm.foldl_eq _ _ _ _ _ ⟨fun metrics first second => ?_⟩ same _
  rw [laws.counted, laws.counted, laws.commutes]

end Exporter

/-- Prometheus counts all but the breaker's state. -/
def Prometheus.counts (prometheus : Prometheus) : Prometheus :=
  { prometheus with breakerState := breakerStateCode .closed }

/-- OpenTelemetry counts all but the breaker's state. -/
def OpenTelemetry.counts (binding : OpenTelemetry) : OpenTelemetry :=
  { binding with breakerState := .closed }

/-- The counters of Prometheus do not depend on the order of the events. -/
theorem Prometheus.counts_exporter {κ : Type} :
    (Prometheus.exporter : Exporter κ Prometheus).Counts Prometheus.counts where
  -- Each event adds to counters of its own, so that their order does not matter.
  ignores := by
    intro metrics event topic
    cases event <;> first | rfl | simp [exporter, PoolEvent.type] at topic
  counted := by
    intro metrics event
    cases event <;> rfl
  commutes := by
    intro metrics first second
    cases first <;> cases second <;> rfl

/-- The counters of OpenTelemetry do not depend on the order of the events. -/
theorem OpenTelemetry.counts_exporter {κ : Type} :
    (OpenTelemetry.exporter : Exporter κ OpenTelemetry).Counts OpenTelemetry.counts where
  -- Evictions are told apart by their reason, and the other events by their type.
  ignores := by
    intro metrics event topic
    cases event <;> first | rfl | simp [exporter, PoolEvent.type] at topic
  counted := by
    intro metrics event
    rcases event with _ | _ | _ | _ | ⟨_, _ | _ | _⟩ | _ | _ | _ | _ | _ | _ | _ | _ <;> rfl
  commutes := by
    intro metrics first second
    rcases first with _ | _ | _ | _ | ⟨_, _ | _ | _⟩ | _ | _ | _ | _ | _ | _ | _ | _ <;>
      rcases second with _ | _ | _ | _ | ⟨_, _ | _ | _⟩ | _ | _ | _ | _ | _ | _ | _ | _ <;> rfl

namespace Binding

variable {κ σ : Type}

/--
Whatever is done to the emitter before the exporter is bound and after, what it counts is what was
emitted while it was bound, once no call of `emit` is in progress.
-/
def Tallies (exporter : Exporter κ σ) (counts : σ → σ) (own : PoolEventType → ListenerId) : Prop :=
  ∀ (before : List (EmitterAction κ)) (after : List (BindingAction κ)) (system : EmitterSystem κ)
    (last : Binding κ σ),
    Runs.run EmitterSystem.step .init before = some system →
    (∀ topic ∈ exporter.topics, .on topic (own topic) ∉ before) →
    Runs.Guarded (step exporter own) (Undisturbed exporter own) (bind exporter own system) after →
    Runs.run (step exporter own) (bind exporter own system) after = some last →
    last.system.emissions = [] →
    counts last.metrics =
      counts ((Runs.transcript (step exporter own) (fun s action _ => s.emits action)
        (bind exporter own system) after).foldl exporter.hear exporter.start)

/-- Exporters tally what does not depend on the order of the events. -/
theorem tallies_of_counts {exporter : Exporter κ σ} {counts : σ → σ}
    (laws : exporter.Counts counts) (own : PoolEventType → ListenerId) :
    Tallies exporter counts own := by
  intro before after system last ran fresh met done rest
  obtain ⟨same, metrics⟩ := heard_of_run ran fresh met done
  -- What was due is what was emitted, but for the types that nobody listens to.
  have due : Runs.transcript (step exporter own) (fun s action _ => s.due exporter action)
        (bind exporter own system) after =
      (Runs.transcript (step exporter own) (fun s action _ => s.emits action)
        (bind exporter own system) after).filter fun event => event.type ∈ exporter.topics :=
    Runs.transcript_filter _
  have nothing : last.pending exporter own = [] := by
    simp [pending, rest]
  rw [nothing, List.append_nil, due] at same
  rw [metrics, laws.foldl_perm same, laws.foldl_filter]

/--
At rest both exporters have counted each event that was emitted while they were bound, and no
other one, once: however other listeners throw, come and go, and emit events of their own.
-/
theorem exporters_tally (own : PoolEventType → ListenerId) :
    Tallies (Prometheus.exporter : Exporter κ Prometheus) Prometheus.counts own ∧
      Tallies (OpenTelemetry.exporter : Exporter κ OpenTelemetry) OpenTelemetry.counts own :=
  -- Both exporters only count, so both follow from the general law.
  ⟨tallies_of_counts Prometheus.counts_exporter own,
    tallies_of_counts OpenTelemetry.counts_exporter own⟩

/-- A listener that emits, unbinds the exporter and throws while the exporter waits its turn. -/
theorem exporters_tally_reentrant :
    let exporter : Exporter Nat OpenTelemetry := OpenTelemetry.exporter
    let own : PoolEventType → ListenerId := fun _ => 9
    let before : List (EmitterAction Nat) := [.on .acquire 1]
    let after : List (BindingAction Nat) :=
      [.emitter (.emit (.acquire 7 1)), .emitter .call, .emitter (.emit (.release 7 0)),
        .emitter .call, .emitter (.ended .returned), .emitter .finish, .unbind,
        .emitter (.ended .threw), .emitter .call, .emitter (.ended .returned), .emitter .finish,
        .emitter (.emit (.acquire 8 1)), .emitter .call, .emitter (.ended .returned),
        .emitter .finish]
    ∃ system last, Runs.run EmitterSystem.step .init before = some system ∧
      Runs.run (step exporter own) (bind exporter own system) after = some last ∧
      last.metrics.acquires = 1 ∧ last.metrics.releases = 1 ∧
      last.metrics.counts =
        ((Runs.transcript (step exporter own) (fun s action _ => s.emits action)
          (bind exporter own system) after).foldl exporter.hear exporter.start).counts := by
  intro exporter own before after
  -- The binding ends within a listener of the first event, and a third event follows.
  have bound : (Runs.run EmitterSystem.step .init before).isSome = true := by decide
  have ran : (Runs.run (step exporter own)
      (bind exporter own ((Runs.run EmitterSystem.step .init before).get bound))
      after).isSome = true := by decide +revert
  refine ⟨_, _, Option.eq_some_of_isSome bound, Option.eq_some_of_isSome ran, by decide +revert,
    by decide +revert,
    (exporters_tally own).2 before after _ _ (Option.eq_some_of_isSome bound) ?_ (by decide +revert)
      (Option.eq_some_of_isSome ran) (List.eq_nil_of_length_eq_zero (by decide +revert))⟩
  rintro topic listens inside
  rw [List.mem_singleton] at inside
  cases inside

end Binding

end RefPool
