import RefPool.Proofs.Announcements
import RefPool.Proofs.Bank

/-! When the Prometheus and the OpenTelemetry exporter of a pool report the same. -/

namespace RefPool

variable {κ τ : Type}

/-- Totals on top of those of an earlier moment. -/
def Announced.add (base totals : Announced) : Announced where
  created := base.created + totals.created
  disposed := base.disposed + totals.disposed
  evicted := base.evicted + totals.evicted
  breaker :=
    { toClosed := base.breaker.toClosed + totals.breaker.toClosed
      toOpen := base.breaker.toOpen + totals.breaker.toOpen
      toHalfOpen := base.breaker.toHalfOpen + totals.breaker.toHalfOpen }

/-- An event counts the same on top of anything. -/
theorem Announced.hear_add (base totals : Announced) (event : PoolEvent κ) :
    (base.add totals).hear event = base.add (totals.hear event) := by
  -- Every event adds to one number, and addition is associative.
  cases event <;> rfl

/-- So does any number of events. -/
theorem Announced.foldl_hear_add (base totals : Announced) (news : List (PoolEvent κ)) :
    news.foldl Announced.hear (base.add totals) = base.add (news.foldl Announced.hear totals) := by
  -- One event after the other.
  induction news generalizing totals with
  | nil => rfl
  | cons event rest ih => rw [List.foldl_cons, hear_add, ih, List.foldl_cons]

/-- Nothing has been counted. -/
def Announced.zero : Announced := ⟨0, 0, 0, {}⟩

/-- The totals as a snapshot gives them. -/
def MetricTotals.ofStats (stats : PoolStats) : MetricTotals where
  created := stats.created
  disposed := stats.disposed
  evicted := stats.evicted
  hits := stats.hits
  misses := stats.misses
  breakerClosed := stats.breaker.toClosed
  breakerOpen := stats.breaker.toOpen
  breakerHalfOpen := stats.breaker.toHalfOpen

/-- The breaker states are told apart by their codes. -/
theorem breakerStateCode_injective : Function.Injective breakerStateCode := by
  -- Three codes for three states.
  rintro (_ | _ | _) (_ | _ | _) <;> simp [breakerStateCode]

namespace Prometheus

/-- The increments of a scrape telescope: the counters stand where the snapshot does. -/
theorem sync_counters (max : Option Int) {prometheus : Prometheus} (stats : PoolStats)
    (caught : prometheus.counters = prometheus.last) :
    (prometheus.sync max stats).counters = .ofStats stats ∧
      (prometheus.sync max stats).last = .ofStats stats := by
  have telescoped (now before : Int) : before + (now - before) = now := by omega
  -- A breaker counter that is left alone stands there already.
  have settled (now before : Int) :
      (if now - before ≠ 0 then (now, now) else (before, before)) = (now, now) := by
    split
    · rfl
    · rw [show now = before by omega]
  simp only [sync, caught, settled, MetricTotals.ofStats, telescoped, and_self]

/-- Events touch neither the counters of the snapshots nor the last snapshot. -/
theorem foldl_hear_counters (news : List (PoolEvent κ)) (prometheus : Prometheus) :
    (news.foldl hear prometheus).counters = prometheus.counters ∧
      (news.foldl hear prometheus).last = prometheus.last := by
  -- No listener writes to either of them.
  induction news generalizing prometheus with
  | nil => exact ⟨rfl, rfl⟩
  | cons event rest ih =>
    have same : (prometheus.hear event).counters = prometheus.counters ∧
        (prometheus.hear event).last = prometheus.last := by cases event <;> exact ⟨rfl, rfl⟩
    rw [List.foldl_cons, (ih _).1, (ih _).2]
    exact same

end Prometheus

namespace OpenTelemetry

/-- What the binding has counted by listening. -/
def heard (binding : OpenTelemetry) : Announced where
  created := binding.created
  disposed := binding.disposed
  evicted := binding.evictedLru + binding.evictedTtl + binding.evictedDrain
  breaker := binding.breakerTransitions

/-- The listeners count an event as what it announces. -/
theorem heard_hear (binding : OpenTelemetry) (event : PoolEvent κ) :
    (binding.hear event).heard = binding.heard.hear event := by
  -- An eviction adds to the part of its reason.
  rcases event with _ | _ | _ | _ | ⟨key, _ | _ | _⟩ | _ | _ | _ | _ | _ | _ | _ | _ <;>
    first
    | rfl
    | simp only [hear, heard, Announced.hear, Announced.mk.injEq, true_and, and_true]; omega

/-- The listeners count the news as what they announce. -/
theorem heard_foldl (news : List (PoolEvent κ)) (binding : OpenTelemetry) :
    (news.foldl hear binding).heard = news.foldl Announced.hear binding.heard := by
  -- Each event is counted as what it announces.
  induction news generalizing binding with
  | nil => rfl
  | cons event rest ih => rw [List.foldl_cons, ih, heard_hear, List.foldl_cons]

/-- Listening to anything but a breaker leaves the breaker's state as it was. -/
theorem foldl_hear_silent (news : List (PoolEvent κ)) (binding : OpenTelemetry)
    (silent : ∀ event ∈ news, event.breakerState = none) :
    (news.foldl hear binding).breakerState = binding.breakerState := by
  -- The events of a breaker are the only ones to set its state.
  induction news generalizing binding with
  | nil => rfl
  | cons event rest ih =>
    have same : (binding.hear event).breakerState = binding.breakerState := by
      have quiet := silent event List.mem_cons_self
      rcases event with _ | _ | _ | _ | ⟨key, _ | _ | _⟩ | _ | _ | _ | _ | _ | _ | _ | _ <;>
        first | rfl | cases quiet
    rw [List.foldl_cons, ih _ fun other inside => silent other (List.mem_cons_of_mem _ inside),
      same]

end OpenTelemetry

/-- Both exporters hear the same of the breaker. -/
theorem foldl_hear_breakerState (news : List (PoolEvent κ)) (prometheus : Prometheus)
    (binding : OpenTelemetry)
    (same : prometheus.breakerState = breakerStateCode binding.breakerState) :
    (news.foldl Prometheus.hear prometheus).breakerState =
      breakerStateCode (news.foldl OpenTelemetry.hear binding).breakerState := by
  -- Each event of a breaker sets both, and any other sets neither.
  induction news generalizing prometheus binding with
  | nil => exact same
  | cons event rest ih =>
    refine ih _ _ ?_
    rcases event with _ | _ | _ | _ | ⟨key, _ | _ | _⟩ | _ | _ | _ | _ | _ | _ | _ | _ <;>
      first | rfl | exact same

/-- The event that announces a breaker's new state. -/
def BreakerState.announcement (key : Option κ) : BreakerState → PoolEvent κ
  | .open => .breakerOpen key
  | .closed => .breakerClose key
  | .halfOpen => .breakerHalfOpen key

namespace State

variable [DecidableEq κ] {options : PoolOptions} {s next : State κ τ}

omit [DecidableEq κ] in
/-- A breaker's change of state is told of where the pool listens. -/
theorem tells_breakerChanged (s : State κ τ) (b : BreakerId) (breaker : Breaker κ)
    (state : BreakerState) : Tells s (s.breakerChanged b breaker state)
      (if breaker.subscribed then [state.announcement breaker.key] else []) := by
  -- The listener counts the change and emits the event of the state entered.
  unfold breakerChanged
  cases breaker.subscribed with
  | false => exact ⟨⟨[], by simp, rfl⟩, rfl⟩
  | true => cases state <;> exact ⟨⟨[_], rfl, rfl⟩, rfl⟩

omit [DecidableEq κ] in
/-- A breaker's change of state is written into that breaker. -/
theorem breakerChanged_objects (s : State κ τ) (b : BreakerId) (breaker : Breaker κ)
    (state : BreakerState) : (s.breakerChanged b breaker state).objects =
      s.objects.modify b fun breaker => { breaker with state } := by
  -- Counting and emitting leave the breakers alone.
  unfold breakerChanged
  cases breaker.subscribed <;> cases state <;> rfl

/-- A shared breaker is left alone by every step but its own. -/
theorem objects_of_step {action : Action κ τ} {observable : Bool} {initial : BreakerState}
    (shared : options.breaker = .shared observable initial) (wf : s.toStore.WellFormed)
    (steady : ∀ b state, action ≠ .breakerChanged b state)
    (stepped : s.step options action = some next) : next.objects = s.objects := by
  -- A shared breaker is made with the pool, and never dropped.
  have effect := bank_of_step wf stepped
  generalize next.toBreakerBank = bank at effect
  cases effect with
  | same => rfl
  | resolved a acquire answer bank called phase made =>
    rw [shared] at made
    cases made
    rfl
  | dropped e entry => rw [shared]; rfl
  | collected =>
    rw [shared]
    -- No turn of the pruning drops a shared breaker.
    have pruned (names : List κ) (bank : BreakerBank κ) : (names.foldl (fun bank key =>
        bank.dropBreaker (.shared observable initial) key (s.present key)) bank).objects =
          bank.objects := by
      induction names generalizing bank with
      | nil => rfl
      | cons name rest ih => exact ih bank
    exact pruned _ s.toBreakerBank
  | changed b state => exact absurd rfl (steady b state)

/-- The pool has one breaker, if it is shared. -/
def Lone (options : PoolOptions) (s : State κ τ) : Prop :=
  ∀ observable initial, options.breaker = .shared observable initial →
    ∃ state, s.objects = [⟨state, none, observable⟩]

omit [DecidableEq κ] in
/-- The shared breaker is the only one to change state, and keeps its subscription. -/
theorem Lone.changed (lone : Lone options s) {observable : Bool} {initial : BreakerState}
    (shared : options.breaker = .shared observable initial) {b : BreakerId} {breaker : Breaker κ}
    (found : s.objects[b]? = some breaker) (state : BreakerState) :
    breaker.subscribed = observable ∧
      (s.breakerChanged b breaker state).objects = [⟨state, none, observable⟩] := by
  obtain ⟨before, only⟩ := lone observable initial shared
  rw [breakerChanged_objects]
  rw [only] at found ⊢
  -- There is one breaker, so that it stands first.
  cases b with
  | zero =>
    cases found
    exact ⟨rfl, rfl⟩
  | succ b => cases found

/-- A step either is quiet or is a breaker's change of state. -/
theorem news_of_step {action : Action κ τ} (core : Core s)
    (stepped : s.step options action = some next) :
    (Quietly s next ∧ ∀ b state, action ≠ .breakerChanged b state) ∨
      ∃ b state breaker, action = .breakerChanged b state ∧ s.objects[b]? = some breaker ∧
        next = s.breakerChanged b breaker state := by
  -- The change of a breaker's state is the one step that is not quiet.
  by_cases changes : ∃ b state, action = .breakerChanged b state
  · obtain ⟨b, state, rfl⟩ := changes
    obtain ⟨breaker, found, same⟩ := Option.map_eq_some_iff.mp stepped
    exact .inr ⟨b, state, breaker, rfl, found, same.symm⟩
  · have steady : ∀ b state, action ≠ .breakerChanged b state :=
      fun b state same => changes ⟨b, state, same⟩
    exact .inl ⟨(step_effect stepped).quietly core.store steady, steady⟩

/-- No step adds a breaker to a shared one. -/
theorem lone_step {action : Action κ τ} (core : Core s) (lone : Lone options s)
    (stepped : s.step options action = some next) : Lone options next := by
  -- The list of breakers changes in the one way only.
  intro observable initial shared
  rcases news_of_step core stepped with ⟨-, steady⟩ | ⟨b, state, breaker, rfl, found, rfl⟩
  · rw [objects_of_step shared core.store steady stepped]
    exact lone observable initial shared
  · exact ⟨state, (lone.changed shared found state).2⟩

/-- A shared breaker is the only one throughout every run. -/
theorem lone_run {actions : List (Action κ τ)}
    (ran : Runs.run (step options) (init options) actions = some s) : Lone options s := by
  -- The invariant of the run comes with it.
  refine (Runs.run_invariant (fun s => Core s ∧ Lone options s)
    (fun s a next ⟨core, lone⟩ stepped => ⟨core_step core stepped, lone_step core lone stepped⟩)
    ⟨core_init options, fun observable initial shared => ⟨initial, ?_⟩⟩ ran).2
  simp [init, BreakerBank.empty, shared]

end State

namespace Exported

variable [DecidableEq κ]

/-- What both exporters report at a scrape is the same, and the shared breaker's actual state. -/
structure Agrees (options : PoolOptions) (max : Option Int) (s : Exported κ τ) : Prop where
  totals : (s.prometheus.sync max s.pool.getStats).counters =
    s.openTelemetry.collect s.pool.getStats
  gauges : ∀ observable initial, options.breaker = .shared observable initial →
    ∀ breaker ∈ s.pool.objects,
      s.prometheus.breakerState = breakerStateCode breaker.state ∧
        breakerStateCode s.openTelemetry.breakerState = breakerStateCode breaker.state

/-- Nothing that has events has happened yet, and a shared breaker is closed. -/
structure Unused (options : PoolOptions) (pool : State κ τ) : Prop where
  created : pool.counters.created = 0
  disposed : pool.counters.disposed = 0
  evicted : pool.counters.evicted = 0
  transitions : pool.counters.breaker = {}
  closed : ∀ observable initial, options.breaker = .shared observable initial →
    ∀ breaker ∈ pool.objects, breaker.state = .closed

/-- A shared breaker that the pool cannot listen to enters no state but closed. -/
def Observed (options : PoolOptions) (_ : Exported κ τ) : ExportAction κ τ → Prop
  | .pool (.breakerChanged _ state) =>
    ∀ initial, options.breaker = .shared false initial → state = .closed
  | _ => True

/-- What a pool and its exporters keep between them, from the attachment on. -/
structure Attached (options : PoolOptions) (base : Announced) (s : Exported κ τ) : Prop where
  core : Core s.pool
  caught : s.prometheus.counters = s.prometheus.last
  heard : s.pool.counters.announced = base.add s.openTelemetry.heard
  alike : s.prometheus.breakerState = breakerStateCode s.openTelemetry.breakerState
  lone : s.pool.Lone options
  deaf : ∀ initial, options.breaker = .shared false initial → s.openTelemetry.breakerState = .closed

/-- The listeners know the state of a shared breaker. -/
def Follows (options : PoolOptions) (s : Exported κ τ) : Prop :=
  ∀ observable initial, options.breaker = .shared observable initial →
    ∀ breaker ∈ s.pool.objects, s.openTelemetry.breakerState = breaker.state

variable {options : PoolOptions} {max : Option Int} {base : Announced} {s next : Exported κ τ}

omit [DecidableEq κ] in
/-- The listeners are called with what was told. -/
theorem dispatch_of_tells {pool : State κ τ} {news : List (PoolEvent κ)}
    (told : State.Tells s.pool pool news) :
    s.dispatch pool = ⟨pool, news.foldl Prometheus.hear s.prometheus,
      news.foldl OpenTelemetry.hear s.openTelemetry⟩ := by
  -- What is appended to the log is what the listeners are called with.
  obtain ⟨⟨log, events, same⟩, -⟩ := told
  simp only [dispatch, events, List.drop_left, same]

/-- What a pool and its exporters keep survives a step of the pool. -/
theorem Attached.pool (attached : Attached options base s) {action : Action κ τ}
    {pool : State κ τ} (stepped : s.pool.step options action = some pool) :
    Attached options base (s.dispatch pool) := by
  have core := State.core_step attached.core stepped
  have lone := State.lone_step attached.core attached.lone stepped
  have kept {news : List (PoolEvent κ)} (told : State.Tells s.pool pool news)
      (deaf : ∀ initial, options.breaker = .shared false initial →
        ∀ event ∈ news, event.breakerState = none) :
      Attached options base (s.dispatch pool) := by
    rw [dispatch_of_tells told]
    obtain ⟨counters, last⟩ := Prometheus.foldl_hear_counters news s.prometheus
    refine ⟨core, ?_, ?_, ?_, lone, fun initial shared => ?_⟩
    · exact counters.trans (attached.caught.trans last.symm)
    · rw [told.counted, attached.heard, Announced.foldl_hear_add, OpenTelemetry.heard_foldl]
    · exact foldl_hear_breakerState news _ _ attached.alike
    · exact (OpenTelemetry.foldl_hear_silent news _ (deaf initial shared)).trans
        (attached.deaf initial shared)
  -- A quiet step has nothing to say about a breaker.
  rcases State.news_of_step attached.core stepped with
    ⟨⟨news, told, silent⟩, -⟩ | ⟨b, state, breaker, rfl, found, rfl⟩
  · exact kept told fun _ _ => silent
  · refine kept (State.tells_breakerChanged s.pool b breaker state) fun initial shared => ?_
    -- Nobody hears of a breaker that the pool cannot listen to.
    rw [(attached.lone.changed shared found state).1]
    simp

/-- What a pool and its exporters keep survives every step. -/
theorem attached_step {action : ExportAction κ τ} (attached : Attached options base s)
    (stepped : s.step options max action = some next) : Attached options base next := by
  -- A scrape of the one exporter reads off the snapshot, and of the other nothing at all.
  cases action with
  | pool action =>
    obtain ⟨pool, moved, rfl⟩ := Option.map_eq_some_iff.mp stepped
    exact attached.pool moved
  | scrapePrometheus =>
    cases stepped
    obtain ⟨counters, last⟩ := Prometheus.sync_counters max s.pool.getStats attached.caught
    exact ⟨attached.core, counters.trans last.symm, attached.heard, attached.alike,
      attached.lone, attached.deaf⟩
  | scrapeOpenTelemetry =>
    cases stepped
    exact attached

/-- Once attached, the exporters agree where they heard of everything and follow the breaker. -/
theorem Attached.agreement (attached : Attached options base s) :
    Agrees options max s ↔ base = .zero ∧ Follows options s := by
  -- The one exporter stands where the snapshot does, and the other where its listeners got it.
  obtain ⟨counters, -⟩ := Prometheus.sync_counters max s.pool.getStats attached.caught
  have heard := attached.heard
  rcases base with ⟨_, _, _, _, _, _⟩
  simp only [Counters.announced, Announced.add, OpenTelemetry.heard, Announced.mk.injEq] at heard
  obtain ⟨created, disposed, evicted, breaker⟩ := heard
  constructor
  -- Where the totals agree, nothing was counted before the attachment.
  · rintro ⟨totals, gauges⟩
    refine ⟨?_, fun observable initial shared breaker inside => ?_⟩
    · rw [counters] at totals
      simp only [MetricTotals.ofStats, OpenTelemetry.collect, State.getStats, created, disposed,
        evicted, breaker, MetricTotals.mk.injEq] at totals
      obtain ⟨created, disposed, evicted, -, -, closed, opened, half⟩ := totals
      simp only [Announced.zero, Announced.mk.injEq, BreakerCounts.mk.injEq]
      omega
    · exact breakerStateCode_injective (gauges observable initial shared breaker inside).2
  · rintro ⟨nothing, follows⟩
    cases nothing
    refine ⟨?_, fun observable initial shared breaker inside => ?_⟩
    · rw [counters]
      simp [MetricTotals.ofStats, OpenTelemetry.collect, State.getStats, created, disposed,
        evicted, breaker]
    · rw [attached.alike, follows observable initial shared breaker inside]
      exact ⟨rfl, rfl⟩

/-- Listeners that know the breaker's state learn of every change they can hear of. -/
theorem Attached.follows_step (attached : Attached options base s) {action : ExportAction κ τ}
    (follows : Follows options s) (met : Observed options s action)
    (stepped : s.step options max action = some next) : Follows options next := by
  cases action with
  | scrapePrometheus | scrapeOpenTelemetry =>
    cases stepped
    exact follows
  | pool action =>
    obtain ⟨pool, moved, rfl⟩ := Option.map_eq_some_iff.mp stepped
    rintro observable initial shared breaker inside
    rcases State.news_of_step attached.core moved with
      ⟨⟨news, told, silent⟩, steady⟩ | ⟨b, state, changed, rfl, found, rfl⟩
    · -- Nothing was heard of the breaker, which has stayed as it was.
      rw [dispatch_of_tells told] at inside ⊢
      rw [State.objects_of_step shared attached.core.store steady moved] at inside
      exact (OpenTelemetry.foldl_hear_silent news _ silent).trans
        (follows observable initial shared breaker inside)
    -- The change was heard, or was none for a breaker that nobody listens to.
    · obtain ⟨subscribed, objects⟩ := attached.lone.changed shared found state
      rw [dispatch_of_tells (State.tells_breakerChanged s.pool b changed state)] at inside ⊢
      rw [objects, List.mem_singleton] at inside
      subst inside
      rw [subscribed]
      cases observable with
      | true => cases state <;> rfl
      | false => exact (attached.deaf initial shared).trans (met initial shared).symm

/-- Where the exporters still agree after a step, no shared breaker changed unheard. -/
theorem Attached.observed_of_agrees (attached : Attached options base s)
    {action : ExportAction κ τ} (stepped : s.step options max action = some next)
    (agrees : Agrees options max next) : Observed options s action := by
  have later := attached_step attached stepped
  obtain ⟨-, follows⟩ := later.agreement.mp agrees
  cases action with
  | scrapePrometheus | scrapeOpenTelemetry => trivial
  | pool action =>
    obtain ⟨pool, moved, rfl⟩ := Option.map_eq_some_iff.mp stepped
    rcases State.news_of_step attached.core moved with
      ⟨-, steady⟩ | ⟨b, state, changed, rfl, found, rfl⟩
    · cases action with
      | breakerChanged b state => exact absurd rfl (steady b state)
      | _ => trivial
    · intro initial deaf
      -- The listeners hear of no other state than closed.
      have objects := (attached.lone.changed deaf found state).2
      have known := follows false initial deaf ⟨state, none, false⟩ (by
        show _ ∈ (s.pool.breakerChanged b changed state).objects
        simp [objects])
      exact known.symm.trans (later.deaf initial deaf)

/--
After any run of a pool, two exporters attached to it agree at every scrape exactly when nothing
that has events happened before, a shared breaker was closed then, and one that the pool cannot
listen to stays closed.
-/
theorem agrees_iff (options : PoolOptions) (max : Option Int) (before : List (Action κ τ))
    (after : List (ExportAction κ τ)) (pool : State κ τ)
    (ran : Runs.run (State.step options) (State.init options) before = some pool) :
    Runs.Throughout (step options max) (Agrees options max) (bind pool) after ↔
      Unused options pool ∧
        Runs.Guarded (step options max) (Observed options) (bind pool) after := by
  -- What is kept from the attachment on turns agreement into following the breaker.
  have start : Attached options pool.counters.announced (bind pool) :=
    ⟨State.core_run ran, rfl, rfl, rfl, State.lone_run ran, fun _ _ => rfl⟩
  have kept : ∀ (s : Exported κ τ) a s', Attached options pool.counters.announced s →
      step options max s a = some s' → Attached options pool.counters.announced s' :=
    fun s a s' attached stepped => attached_step attached stepped
  constructor
  · intro all
    have here : Agrees options max (bind pool) := by
      cases after with
      | nil => exact all
      | cons => exact all.1
    obtain ⟨nothing, follows⟩ := start.agreement.mp here
    simp only [Counters.announced, Announced.zero, Announced.mk.injEq] at nothing
    obtain ⟨created, disposed, evicted, transitions⟩ := nothing
    exact ⟨⟨created, disposed, evicted, transitions,
        fun observable initial shared breaker inside =>
          (follows observable initial shared breaker inside).symm⟩,
      all.guarded kept (fun s a s' attached _ stepped agrees =>
        attached.observed_of_agrees stepped agrees) start⟩
  -- An unused pool starts in agreement, and nothing changes unheard.
  · rintro ⟨unused, observed⟩
    have follows : Follows options (bind pool) :=
      fun observable initial shared breaker inside =>
        (unused.closed observable initial shared breaker inside).symm
    have nothing : pool.counters.announced = .zero := by
      simp [Counters.announced, Announced.zero, unused.created, unused.disposed, unused.evicted,
        unused.transitions]
    have both := observed.throughout
      (fun s : Exported κ τ => Attached options pool.counters.announced s ∧ Follows options s)
      (fun s a s' ⟨attached, follows⟩ met (stepped : step options max s a = some s') =>
        ⟨attached_step attached stepped, attached.follows_step follows met stepped⟩)
      ⟨start, follows⟩
    exact both.mono fun s ⟨attached, follows⟩ => attached.agreement.mpr ⟨nothing, follows⟩

/-- A pool with a shared breaker that trips and recovers after both exporters were attached. -/
theorem agrees_iff_fresh :
    let options : PoolOptions := { max := 1, breaker := .shared true }
    Runs.Throughout (step options (some 1)) (Agrees options (some 1))
      (bind (State.init options : State Nat Nat))
      [.pool (.acquire 7), .pool (.obtain 0), .pool (.create 0 .threw), .pool (.factoryCalled 0),
        .pool (.factorySettled 0 (some 70)), .pool (.execSettled 0 (some 70)), .scrapePrometheus,
        .pool (.breakerChanged 0 .open), .scrapeOpenTelemetry, .scrapePrometheus,
        .pool (.breakerChanged 0 .halfOpen)] :=
  -- Both exporters were bound before anything was counted.
  (agrees_iff _ _ [] _ _ rfl).mpr
    ⟨⟨rfl, rfl, rfl, rfl, by simp [State.init, BreakerBank.empty]⟩, by
      simp [Runs.Guarded, Observed]⟩

/-- Attached after a resource was created, the exporters report different totals of them. -/
theorem agrees_late :
    let options : PoolOptions := { max := 1 }
    let before : List (Action Nat Nat) :=
      [.acquire 7, .obtain 0, .create 0 .threw, .factoryCalled 0, .factorySettled 0 (some 70),
        .execSettled 0 (some 70)]
    ∃ pool, Runs.run (State.step options) (State.init options) before = some pool ∧
      ¬ Runs.Throughout (step options (some 1)) (Agrees options (some 1)) (bind pool) [] := by
  -- The totals differ by the one creation that nobody heard of.
  refine ⟨_, rfl, fun agrees => ?_⟩
  exact absurd agrees.totals (by decide)

end Exported

end RefPool
