import RefPool.Proofs.KeyedBreakers
import Mathlib.Data.List.Chain

/-! The breaker of each key goes through calls that follow one another, whatever else happens. -/

namespace RefPool

variable {κ τ : Type} [DecidableEq κ]

/-- What an event says about the breaker of a key: the state that it entered, and when. -/
def Emitted.breakerNews (key : κ) (emitted : Emitted κ) : Option (BreakerState × Int) :=
  match emitted.event with
  | .breakerOpen (some other) => if other = key then some (.open, emitted.timestamp) else none
  | .breakerClose (some other) => if other = key then some (.closed, emitted.timestamp) else none
  | .breakerHalfOpen (some other) =>
    if other = key then some (.halfOpen, emitted.timestamp) else none
  | _ => none

/-- The changes of state that the pool announced for a key. -/
def State.breakerNews (s : State κ τ) (key : κ) : List (BreakerState × Int) :=
  s.events.filterMap (Emitted.breakerNews key)

namespace ProtectedPool

open SequentialBreaker (Event Standing)

variable {options : PoolOptions} {settings : InMemoryCircuitBreakerOptions}
  {s next : ProtectedPool κ τ} {key : κ}

/-- How the breaker of a key stands. A key without a breaker would be given a new one. -/
def standing (s : ProtectedPool κ τ) (key : κ) : Standing :=
  match s.pool.breakers.get? key with
  | none => ⟨.counting 0, false⟩
  | some b => ⟨((s.breakers[b]?).getD .new).mode, s.busy b⟩

/-- What a step means for the breaker of a key. -/
def notes (key : κ) (s : ProtectedPool κ τ) (action : ProtectedAction κ τ)
    (next : ProtectedPool κ τ) : List Event :=
  match action with
  | .create a =>
    if (s.pool.acquires[a]?).any fun acquire => acquire.key = key then
      -- Whether the breaker admitted the call shows in whether the factory was called.
      [.called s.pool.now (s.pool.factoryCalls.length < next.pool.factoryCalls.length)]
    else []
  | .record x =>
    if (s.pool.execs[x]?).any fun exec => exec.key = key then
      [.settled s.pool.now ((next.runs[x]?).any fun run => run.stage.yield.isSome)]
    else []
  | .pool _ =>
    if s.pool.breakers.has key && !next.pool.breakers.has key then [.forgotten] else []
  | .settle _ => []

/-- What a step means for the breaker of a key, in full. -/
inductive Turn (settings : InMemoryCircuitBreakerOptions) (s next : ProtectedPool κ τ) (key : κ) :
    List Event → Prop
  /-- The step does not concern the breaker. -/
  | still (standing : next.standing key = s.standing key)
      (news : next.pool.breakerNews key = s.pool.breakerNews key) : Turn settings s next key []
  /-- The breaker is asked. -/
  | called (mode : SequentialBreaker) (admitted : Bool) (before : s.standing key = ⟨mode, false⟩)
      (answer : (mode.call settings s.pool.now).2 = admitted)
      (after : next.standing key = ⟨(mode.call settings s.pool.now).1, admitted⟩)
      (news : next.pool.breakerNews key = s.pool.breakerNews key ++
        (mode.news (mode.call settings s.pool.now).1).map fun state => (state, s.pool.now)) :
      Turn settings s next key [.called s.pool.now admitted]
  /-- The breaker learns how its call ended. -/
  | settled (mode : SequentialBreaker) (succeeded : Bool) (before : s.standing key = ⟨mode, true⟩)
      (after : next.standing key = ⟨mode.settle settings s.pool.now succeeded, false⟩)
      (news : next.pool.breakerNews key = s.pool.breakerNews key ++
        (mode.news (mode.settle settings s.pool.now succeeded)).map fun state =>
          (state, s.pool.now)) :
      Turn settings s next key [.settled s.pool.now succeeded]
  /-- The breaker is dropped. -/
  | forgotten (failures : Nat) (before : s.standing key = ⟨.counting failures, false⟩)
      (after : next.standing key = ⟨.counting 0, false⟩)
      (news : next.pool.breakerNews key = s.pool.breakerNews key) :
      Turn settings s next key [.forgotten]

omit [DecidableEq κ] in
/-- An announcement is news of its key. -/
theorem breakerNews_announcement [DecidableEq κ] (state : BreakerState) (other key : κ)
    (now : Int) : Emitted.breakerNews key ⟨state.announcement (some other), now⟩ =
      if other = key then some (state, now) else none := by
  -- Every announced state is the news of the key that it names.
  cases state <;> rfl

/-- The pool hears of the breaker of one key, and nothing of the others. -/
theorem Told.news {pool heard : State κ τ} {breakers : List InMemoryCircuitBreaker}
    {other : κ} {b : BreakerId} {before after : InMemoryCircuitBreaker}
    (told : Told pool heard breakers other b before after) (key : κ) :
    heard.breakerNews key = pool.breakerNews key ++
      if other = key then (before.mode.news after.mode).map fun state => (state, pool.now)
      else [] := by
  obtain ⟨⟨objects, counts, rfl⟩, -⟩ := told
  show (pool.events ++ _).filterMap _ = _
  rw [List.filterMap_append, List.filterMap_map]
  refine congrArg (pool.breakerNews key ++ ·) ?_
  -- The news are of the key that the breaker belongs to.
  split
  · rename_i same
    rw [← List.filterMap_eq_map]
    refine List.filterMap_congr fun state _ => ?_
    simp [breakerNews_announcement, same]
  · rename_i differ
    refine List.filterMap_eq_nil_iff.mpr fun state _ => ?_
    simp [breakerNews_announcement, differ]

/-- A step in which no breaker changes state is no news. -/
theorem news_of_quietly {pool heard : State κ τ} (quiet : State.Quietly pool heard) (key : κ) :
    heard.breakerNews key = pool.breakerNews key := by
  obtain ⟨news, ⟨⟨log, events, told⟩, -⟩, silent⟩ := quiet
  unfold State.breakerNews
  rw [events, List.filterMap_append]
  -- Events of another kind are no news of a breaker.
  have nothing : log.filterMap (Emitted.breakerNews key) = [] := by
    refine List.filterMap_eq_nil_iff.mpr fun emitted inside => ?_
    have quiet := silent emitted.event (told ▸ List.mem_map_of_mem inside)
    unfold Emitted.breakerNews
    cases event : emitted.event <;> simp_all [PoolEvent.breakerState]
  rw [nothing, List.append_nil]

/-- The standing of a key whose breaker is kept. -/
theorem standing_of_bound {b : BreakerId} (bound : s.pool.breakers.get? key = some b) :
    s.standing key = ⟨((s.breakers[b]?).getD .new).mode, s.busy b⟩ := by
  -- The standing is read off the breaker that the key has.
  simp [standing, bound]

/-- The standing of a key without a breaker. -/
theorem standing_of_absent (absent : s.pool.breakers.get? key = none) :
    s.standing key = ⟨.counting 0, false⟩ := by
  -- A key without a breaker stands as with a new one.
  simp [standing, absent]

/-- A creation asks the breaker of its key, and no other. -/
theorem Serves.turn {a : AcquireId} {other : κ} {bank : BreakerBank κ} {b : BreakerId}
    {breaker after : InMemoryCircuitBreaker} {admission : Admission} {heard : State κ τ}
    (serves : Serves settings s a other bank b breaker after admission heard)
    (keyed : Keyed settings s) {stage : ExecStage τ}
    (waits : stage.isAwaiting = decide (admission = .admitted))
    (kept : next.pool.toBreakerBank = heard.toBreakerBank)
    (events : next.pool.events = heard.events) (runs : next.runs = s.runs ++ [⟨b, stage⟩])
    (breakers : next.breakers = (s.equipped bank).modify b fun _ => after) (key : κ) :
    Turn settings s next key
      (if other = key then [.called s.pool.now (decide (admission = .admitted))] else []) := by
  have mirrors := serves.told.mirrors
  have bound (key : κ) : next.pool.breakers.get? key = bank.breakers.get? key := by
    obtain ⟨⟨objects, counts, same⟩, -⟩ := serves.told
    rw [kept, same]
    rfl
  have news := serves.told.news key
  rw [show heard.breakerNews key = next.pool.breakerNews key by
    rw [State.breakerNews, State.breakerNews, events]] at news
  have called := serves.called.mode
  by_cases same : other = key
  · subst same
    rw [if_pos rfl] at news ⊢
    refine .called breaker.mode _ ?_ (by rw [called]) ?_ (by rw [called]; exact news)
    -- The breaker is the one that is kept, or a new one.
    · cases old : s.pool.breakers.get? other with
      | some b' =>
        obtain rfl := serves.resolves.lasting b' old
        rw [standing_of_bound old, ← serves.found, serves.idle]
      | none =>
        have absent : s.breakers[b]? = none := by
          rw [serves.resolves.fresh old]
          exact List.getElem?_eq_none (Nat.le_refl _)
        rw [standing_of_absent old, serves.found, absent]
        rfl
    · obtain ⟨record, there, -⟩ := serves.resolves.mirrors.wired other b serves.resolves.bound
      have moved : next.breakers[b]? = some after := by
        rw [breakers]
        exact Arena.getElem?_modify_self _ there
      rw [standing_of_bound ((bound other).trans serves.resolves.bound), moved, called,
        busy_push runs, serves.idle, waits]
      simp
  -- The breaker of another key is another one.
  · rw [if_neg same, List.append_nil] at news
    rw [if_neg same]
    refine .still ?_ news
    have unmoved := (bound key).trans (serves.resolves.others key (Ne.symm same))
    cases old : s.pool.breakers.get? key with
    | none => rw [standing_of_absent old, standing_of_absent (unmoved.trans old)]
    | some b' =>
      have differ : b ≠ b' := by
        rintro rfl
        exact same (serves.resolves.mirrors.injective serves.resolves.bound
          ((serves.resolves.others key (Ne.symm same)).trans old))
      obtain ⟨record, there, -⟩ := keyed.mirrors.wired key b' old
      have stays : next.breakers[b']? = s.breakers[b']? := by
        rw [breakers, Arena.getElem?_modify_other _ _ differ, there]
        exact List.getElem?_append_left (List.getElem?_eq_some_iff.mp there).1 ▸ there
      rw [standing_of_bound old, standing_of_bound (unmoved.trans old), stays, busy_push runs]
      simp [differ]

/-- The end of a factory call is news for the breaker of its key, and for no other. -/
theorem Ends.turn {x : ExecId} {run : BreakerRun τ} {other : κ}
    {breaker after : InMemoryCircuitBreaker} {outcome : Option τ} {heard : State κ τ}
    (ends : Ends settings s x run other breaker after outcome.isSome heard)
    (keyed : Keyed settings s) (found : s.runs[x]? = some run)
    (known : s.breakers[run.breaker]? = some breaker) (pool : next.pool = heard)
    (runs : next.runs = s.runs.modify x fun run => { run with stage := .recorded outcome })
    (breakers : next.breakers = s.breakers.modify run.breaker fun _ => after) (key : κ) :
    Turn settings s next key
      (if other = key then [.settled s.pool.now outcome.isSome] else []) := by
  have bound (key : κ) : next.pool.breakers.get? key = s.pool.breakers.get? key := by
    obtain ⟨⟨objects, counts, same⟩, -⟩ := ends.told
    rw [pool, same]
    rfl
  have news := ends.told.news key
  rw [← pool] at news
  -- The breaker of the exec has settled a call, and the other breakers are left alone.
  by_cases same : other = key
  · subst same
    rw [if_pos rfl] at news ⊢
    refine .settled breaker.mode _ ?_ ?_ (by rw [ends.settled.mode]; exact news)
    · rw [standing_of_bound ends.bound, known, ends.busy, Option.getD_some]
    · have moved : next.breakers[run.breaker]? = some after := by
        rw [breakers]
        exact Arena.getElem?_modify_self _ known
      rw [standing_of_bound ((bound other).trans ends.bound), moved, ends.settled.mode,
        ends.busy_next found runs]
      simp
  · rw [if_neg same, List.append_nil] at news
    rw [if_neg same]
    refine .still ?_ news
    cases old : s.pool.breakers.get? key with
    | none => rw [standing_of_absent old, standing_of_absent ((bound key).trans old)]
    | some b =>
      have differ : b ≠ run.breaker := by
        rintro rfl
        exact same (keyed.mirrors.injective ends.bound old)
      rw [standing_of_bound old, standing_of_bound ((bound key).trans old), breakers,
        Arena.getElem?_modify_other _ _ (Ne.symm differ), ends.busy_next found runs]
      simp [differ]

/-- Every step is a turn of the breaker of each key. -/
theorem Effect.turn {action : ProtectedAction κ τ} (perKey : options.breaker = .factory)
    (keyed : Keyed settings s) (effect : Effect options settings s action next) (key : κ) :
    Turn settings s next key (notes key s action next) := by
  cases effect with
  -- A step of the pool alone may drop the breaker, which nobody was calling.
  | passed action pool foreign stepped =>
    have trims := keyed.trims perKey foreign stepped
    have steady : ∀ b state, action ≠ .breakerChanged b state := by
      rintro b state rfl
      cases foreign
    have news : pool.breakerNews key = s.pool.breakerNews key :=
      news_of_quietly ((State.step_effect stepped).quietly keyed.equipped.core.store steady) key
    rcases trims.kept key with same | ⟨gone, absent, b, breaker, bound, found, closed⟩
    · have unsaid : notes key s (.pool action) { s with pool } = [] := by
        cases bound : s.pool.breakers.get? key <;> simp [notes, OrderedMap.has, same, bound]
      rw [unsaid]
      refine .still ?_ news
      unfold standing
      rw [show ({ s with pool } : ProtectedPool κ τ).pool.breakers = pool.breakers from rfl, same]
      rfl
    · have said : notes key s (.pool action) { s with pool } = [.forgotten] := by
        simp [notes, OrderedMap.has, gone, bound]
      have idle : s.busy b = false := by
        refine Bool.eq_false_iff.mpr fun busy => ?_
        obtain ⟨x, run, exec, -, there, outstanding, -, kept⟩ := keyed.exec_of_busy busy
        have present := keyed.equipped.present_of_pending there outstanding
        rw [keyed.mirrors.injective kept bound] at present
        cases absent.symm.trans present
      rw [said]
      refine .forgotten breaker.failures ?_ (standing_of_absent gone) news
      rw [standing_of_bound bound, found, idle, Option.getD_some, InMemoryCircuitBreaker.mode,
        closed]
  -- A call is noted under the key of the acquire that makes it.
  | called a acquire bank b breaker after heard creation stepped =>
    have serves := creation.serves perKey keyed
    obtain ⟨⟨objects, counts, same⟩, -⟩ := serves.told
    have calls : heard.factoryCalls.length = s.pool.factoryCalls.length := by rw [same]; rfl
    have noted : notes key s (.create a) ⟨{ heard with
        factoryCalls := heard.factoryCalls ++ [{ exec := s.runs.length, outcome := .pending }] },
        (s.equipped bank).modify b fun _ => after,
        s.runs ++ [⟨b, .awaiting s.pool.factoryCalls.length⟩]⟩ =
          if acquire.key = key then [.called s.pool.now true] else [] := by
      simp [notes, creation.called, calls]
    rw [noted]
    exact serves.turn keyed rfl rfl rfl rfl rfl key
  | refused a acquire bank b breaker after admission heard creation unadmitted =>
    have serves := creation.serves perKey keyed
    obtain ⟨⟨objects, counts, same⟩, -⟩ := serves.told
    have calls : heard.factoryCalls.length = s.pool.factoryCalls.length := by rw [same]; rfl
    have noted : notes key s (.create a) ⟨heard, (s.equipped bank).modify b fun _ => after,
        s.runs ++ [⟨b, .refused⟩]⟩ =
          if acquire.key = key then
            [.called s.pool.now (decide (admission = .admitted))] else [] := by
      simp [notes, creation.called, calls, unadmitted]
    rw [noted]
    exact serves.turn keyed (by simp [ExecStage.isAwaiting, unadmitted]) rfl rfl rfl rfl key
  -- A settlement is noted under the key of its exec.
  | recorded x run c call outcome breaker heard found stage made landed known told =>
    obtain ⟨other, ends⟩ := keyed.ends found stage known told
    obtain ⟨exec, there, rfl, -⟩ := ends.exec
    have noted : notes key s (.record x) ⟨heard, s.breakers.modify run.breaker fun _ =>
        (breaker.settle settings s.pool.now (fun _ => false) (resultOf outcome)).1,
        s.runs.modify x fun run => { run with stage := .recorded outcome }⟩ =
          if exec.key = key then [.settled s.pool.now outcome.isSome] else [] := by
      simp [notes, there, Arena.getElem?_modify_self _ found, ExecStage.yield]
    rw [noted]
    exact ends.turn keyed found known rfl rfl rfl key
  | settled x run outcome pool found stage stepped =>
    have news : pool.breakerNews key = s.pool.breakerNews key :=
      news_of_quietly ((State.step_effect stepped).quietly keyed.equipped.core.store (by simp))
        key
    -- The pool goes on with the outcome, and leaves the breakers alone.
    have same : ({ s with pool } : ProtectedPool κ τ).standing key = s.standing key := by
      cases State.step_effect stepped with
      | execRejected | execLate | inserted => rfl
    exact .still same news

/-- A turn is what its events make of the breaker. -/
theorem Turn.run {events : List Event} (turn : Turn settings s next key events) :
    Runs.run (Standing.step settings) (s.standing key) events = some (next.standing key) := by
  -- Each turn is a step of the sequential breaker, or none.
  cases turn with
  | still standing => rw [Runs.run_nil, standing]
  | called mode admitted before answer after =>
    rw [before, after]
    simp [Runs.run, Standing.step, answer]
  | settled mode succeeded before after =>
    rw [before, after]
    simp [Runs.run, Standing.step]
  | forgotten failures before after =>
    rw [before, after]
    simp [Runs.run, Standing.step]

/-- A pool is keyed throughout every run. -/
theorem keyed_throughout (perKey : options.breaker = .factory)
    (settings : InMemoryCircuitBreakerOptions) (actions : List (ProtectedAction κ τ)) :
    Runs.Throughout (step options settings) (Keyed settings) (init options) actions :=
  -- Every step keeps the pool keyed.
  Runs.throughout_of_invariant (Keyed settings)
    (fun _ _ _ keyed stepped => (effect_of_step stepped).keyed perKey keyed) (keyed_init perKey)
    actions

/-- What happens to the breaker of a key from some moment on leads from how it stood then. -/
theorem Keyed.run_transcript (perKey : options.breaker = .factory) (keyed : Keyed settings s)
    (key : κ) {actions : List (ProtectedAction κ τ)} {last : ProtectedPool κ τ}
    (ran : Runs.run (step options settings) s actions = some last) :
    Runs.run (Standing.step settings) (s.standing key)
      (Runs.transcript (step options settings) (notes key) s actions) =
        some (last.standing key) :=
  -- Every step is a turn of the key's breaker, and a turn is a step of the standing.
  Runs.run_transcript (Keyed settings) (standing · key)
    (fun _ _ _ keyed stepped => (effect_of_step stepped).keyed perKey keyed)
    (fun _ _ _ keyed stepped => ((effect_of_step stepped).turn perKey keyed key).run) keyed ran

/-- What happens to the breaker of a key in a run is a run of calls that follow one another. -/
theorem sequential_run (perKey : options.breaker = .factory) (key : κ)
    {actions : List (ProtectedAction κ τ)} {last : ProtectedPool κ τ}
    (ran : Runs.run (step options settings) (init options) actions = some last) :
    Runs.run (Standing.step settings) ⟨.counting 0, false⟩
      (Runs.transcript (step options settings) (notes key) (init options) actions) =
        some (last.standing key) := by
  -- At first the key has no breaker, and a breaker that is made for it is new.
  have fresh : (init options : ProtectedPool κ τ).standing key = ⟨.counting 0, false⟩ :=
    standing_of_absent (by simp [init, State.init, perKey, BreakerBank.empty])
  rw [← fresh]
  exact (keyed_init perKey).run_transcript perKey key ran

/-- A run in which a breaker trips, refuses, and is closed by a probe after its cooldown. -/
def recovered : List (ProtectedAction Nat Nat) :=
  [.pool (.acquire 7), .pool (.obtain 0), .create 0, .pool (.factorySettled 0 none), .record 0,
    .settle 0, .pool (.deliver 0), .pool (.acquire 7), .pool (.obtain 1), .create 1, .settle 1,
    .pool (.deliver 1), .pool (.clock 10), .pool (.acquire 7), .pool (.obtain 2), .create 2,
    .pool (.factorySettled 1 (some 70)), .record 2, .settle 2, .pool (.deliver 2)]

/-- The breaker trips, refuses, and is closed by a probe after its cooldown. -/
theorem sequential_run_recovered :
    let settings : InMemoryCircuitBreakerOptions := { failureThreshold := 1, cooldownMs := 10 }
    ∃ last : ProtectedPool Nat Nat, Runs.run (Standing.step settings) ⟨.counting 0, false⟩
      [.called 0 true, .settled 0 false, .called 0 false, .called 10 true, .settled 10 true] =
        some (last.standing 7) := by
  intro settings
  let options : PoolOptions := { max := 1, breaker := .factory }
  have ran : (Runs.run (step options settings) (init options) recovered).isSome = true := by
    decide
  have told : Runs.transcript (step options settings) (notes 7) (init options) recovered =
      [.called 0 true, .settled 0 false, .called 0 false, .called 10 true, .settled 10 true] := by
    decide
  -- The breaker opens, refuses, and closes again after its cooldown.
  rw [← told]
  exact ⟨_, sequential_run rfl 7 (Option.eq_some_of_isSome ran)⟩

/-- The changes of state of a breaker whose cooldown counts from when it opened. -/
inductive Succeeds (settings : InMemoryCircuitBreakerOptions) :
    BreakerState × Int → BreakerState × Int → Prop
  | trip (since now : Int) : Succeeds settings (.closed, since) (.open, now)
  | cool (since now : Int) (cooled : settings.cooldownMs ≤ now - since) :
      Succeeds settings (.open, since) (.halfOpen, now)
  | decide (since now : Int) (reached : BreakerState)
      (final : reached = .closed ∨ reached = .open) :
      Succeeds settings (.halfOpen, since) (reached, now)

/-- Everything announced for a key, starting from a closed breaker. -/
def chronicle (s : ProtectedPool κ τ) (key : κ) : List (BreakerState × Int) :=
  (.closed, 0) :: s.pool.breakerNews key

/-- What was announced for a key leads along the diagram to where its breaker stands. -/
structure Chronicled (settings : InMemoryCircuitBreakerOptions)
    (news : List (BreakerState × Int)) (mode : SequentialBreaker) : Prop where
  chain : news.IsChain (Succeeds settings)
  last : ∃ now, news.getLast? = some (mode.state, now) ∧
    ∀ since, mode = .tripped since → now = since

/-- A breaker that moves on within a state announces nothing. -/
theorem Chronicled.stay {news : List (BreakerState × Int)} {before : SequentialBreaker}
    (chronicled : Chronicled settings news before) (after : SequentialBreaker)
    (same : after.state = before.state)
    (kept : ∀ since, after = .tripped since → before = .tripped since) (now : Int) :
    Chronicled settings (news ++ (before.news after).map fun state => (state, now)) after := by
  obtain ⟨chain, since, last, stamp⟩ := chronicled
  -- The state is the same, so there is no news of it.
  have silent : before.news after = [] := by simp [SequentialBreaker.news, same]
  rw [silent, List.map_nil, List.append_nil]
  exact ⟨chain, since, same ▸ last, fun moment entered => stamp moment (kept moment entered)⟩

/-- A breaker that changes state announces the change. -/
theorem Chronicled.move {news : List (BreakerState × Int)} {before after : SequentialBreaker}
    (chronicled : Chronicled settings news before) {now : Int}
    (differ : after.state ≠ before.state)
    (allowed : ∀ since, (∀ moment, before = .tripped moment → since = moment) →
      Succeeds settings (before.state, since) (after.state, now))
    (stamped : ∀ since, after = .tripped since → now = since) :
    Chronicled settings (news ++ (before.news after).map fun state => (state, now)) after := by
  obtain ⟨chain, since, last, stamp⟩ := chronicled
  have told : before.news after = [after.state] := by simp [SequentialBreaker.news, differ]
  rw [told, List.map_singleton]
  refine ⟨?_, now, by simp, stamped⟩
  -- The new link goes from the last state announced.
  refine List.isChain_append.mpr ⟨chain, List.isChain_singleton _, ?_⟩
  intro x final y first
  obtain rfl := Option.some.inj (last.symm.trans final)
  obtain rfl : (after.state, now) = y := by simpa using first
  exact allowed since stamp

/-- A turn of the breaker goes along the diagram. -/
theorem Turn.chronicled {events : List Event} (turn : Turn settings s next key events)
    (chronicled : Chronicled settings (s.chronicle key) (s.standing key).mode) :
    Chronicled settings (next.chronicle key) (next.standing key).mode := by
  unfold chronicle at chronicled ⊢
  cases turn with
  | still standing news =>
    rw [standing, news]
    exact chronicled
  | forgotten failures before after news =>
    rw [before] at chronicled
    rw [after, news]
    have stays := chronicled.stay (.counting 0) rfl (by simp) 0
    simpa [SequentialBreaker.news, SequentialBreaker.state] using stays
  | called mode admitted before answer after news =>
    rw [before] at chronicled
    rw [after, news, ← List.cons_append]
    -- An open breaker that has cooled down is tried.
    cases mode with
    | counting failures => exact chronicled.stay _ rfl (by simp) _
    | probing => exact chronicled.stay _ rfl (by simp) _
    | tripped since =>
      simp only [SequentialBreaker.call]
      split
      · rename_i cooled
        refine chronicled.move (by simp [SequentialBreaker.state]) (fun moment same => ?_) (by simp)
        obtain rfl := same since rfl
        exact .cool _ _ cooled
      · exact chronicled.stay _ rfl (fun _ => id) _
  | settled mode succeeded before after news =>
    rw [before] at chronicled
    rw [after, news, ← List.cons_append]
    -- A closed breaker may trip, and a half-open one is decided.
    cases mode with
    | tripped since => exact chronicled.stay _ rfl (fun _ => id) _
    | counting failures =>
      simp only [SequentialBreaker.settle]
      split
      · exact chronicled.stay (.counting 0) rfl (by simp) _
      · split
        · exact chronicled.move (by simp [SequentialBreaker.state]) (fun _ _ => .trip _ _)
            (by simp)
        · exact chronicled.stay (.counting (failures + 1)) rfl (by simp) _
    | probing =>
      simp only [SequentialBreaker.settle]
      split
      · exact chronicled.move (by simp [SequentialBreaker.state])
          (fun _ _ => .decide _ _ _ (.inl rfl)) (by simp)
      · exact chronicled.move (by simp [SequentialBreaker.state])
          (fun _ _ => .decide _ _ _ (.inr rfl)) (by simp)

/-- What the pool announces of the breaker of any key goes along the diagram throughout. -/
theorem chronicled_throughout (perKey : options.breaker = .factory)
    (settings : InMemoryCircuitBreakerOptions) (actions : List (ProtectedAction κ τ)) :
    Runs.Throughout (step options settings)
      (fun s => ∀ key, (s.chronicle key).IsChain (Succeeds settings)) (init options) actions := by
  have kept := Runs.throughout_of_invariant
    (fun s : ProtectedPool κ τ => Keyed settings s ∧
      ∀ key, Chronicled settings (s.chronicle key) (s.standing key).mode)
    (fun s action next ⟨keyed, chronicled⟩ (stepped : s.step options settings action = some next) =>
      ⟨(effect_of_step stepped).keyed perKey keyed, fun key =>
        ((effect_of_step stepped).turn perKey keyed key).chronicled (chronicled key)⟩)
    ⟨keyed_init perKey, fun key => ?_⟩ actions
  · exact kept.mono fun s ⟨_, chronicled⟩ key => (chronicled key).chain
  -- At first nothing was announced, and the key has no breaker.
  · rw [standing_of_absent (by simp [init, State.init, perKey, BreakerBank.empty])]
    have silent : (init options : ProtectedPool κ τ).chronicle key = [(.closed, 0)] := rfl
    rw [silent]
    exact ⟨List.isChain_singleton _, 0, rfl, by simp⟩

/-- The changes of state of the breaker that trips and recovers. -/
theorem chronicled_throughout_recovered :
    let options : PoolOptions := { max := 1, breaker := .factory }
    let settings : InMemoryCircuitBreakerOptions := { failureThreshold := 1, cooldownMs := 10 }
    Runs.Throughout (step options settings)
      (fun s => ∀ key, (s.chronicle key).IsChain (Succeeds settings)) (init options) recovered :=
  -- The options keep a breaker for each key, as the theorem asks.
  chronicled_throughout rfl _ recovered

/-- The breaker of a key is half-open while its probe is in flight, unless it permits none. -/
theorem Keyed.probing (keyed : Keyed settings s) (probing : (s.standing key).mode = .probing) :
    (s.standing key).busy = decide (0 < settings.halfOpenMaxAttempts) := by
  cases bound : s.pool.breakers.get? key with
  | none => simp [standing_of_absent bound] at probing
  | some b =>
    obtain ⟨breaker, found, -⟩ := keyed.mirrors.wired key b bound
    rw [standing_of_bound bound, found, Option.getD_some] at probing ⊢
    have state : breaker.state = .halfOpen := by
      rw [← InMemoryCircuitBreaker.mode_state, show breaker.mode = _ from probing]
      rfl
    -- A half-open breaker has its one probe under way, or permits none.
    rcases (keyed.sole b breaker found).halfOpen state with ⟨busy, -, permitted⟩ |
      ⟨idle, -, forbidden⟩
    · simp [busy, permitted]
    · simp [idle, forbidden]

/-- A creation is refused only while the breaker of its key is open and has not cooled down. -/
def RefusesOpen (settings : InMemoryCircuitBreakerOptions) (options : PoolOptions)
    (s : ProtectedPool κ τ) : Prop :=
  ∀ a acquire next, s.pool.acquires[a]? = some acquire →
    s.step options settings (.create a) = some next →
    next.pool.factoryCalls.length = s.pool.factoryCalls.length →
      ∃ since, s.standing acquire.key = ⟨.tripped since, false⟩ ∧
        s.pool.now - since < settings.cooldownMs

/-- Where probes are permitted, only open breakers refuse, throughout every run. -/
theorem refusesOpen_throughout (perKey : options.breaker = .factory)
    (permitted : 0 < settings.halfOpenMaxAttempts) (actions : List (ProtectedAction κ τ)) :
    Runs.Throughout (step options settings) (RefusesOpen settings options) (init options)
      actions := by
  refine (keyed_throughout perKey settings actions).mono fun s keyed => ?_
  intro a acquire next called stepped unflown
  -- The breaker of the key was asked, and refused.
  have turn := (effect_of_step stepped).turn perKey keyed acquire.key
  have noted : notes acquire.key s (.create a) next = [.called s.pool.now false] := by
    simp [notes, called, unflown]
  rw [noted] at turn
  cases turn with
  | called mode admitted before answer =>
    cases mode with
    | counting failures => simp [SequentialBreaker.call] at answer
    | probing =>
      have busy := keyed.probing (by rw [before])
      simp [before, permitted] at busy
    | tripped since =>
      refine ⟨since, before, ?_⟩
      simp only [SequentialBreaker.call] at answer
      split at answer
      · simp [permitted] at answer
      · omega

/-- The one call that is refused finds the breaker open. -/
theorem refusesOpen_throughout_recovered :
    let options : PoolOptions := { max := 1, breaker := .factory }
    let settings : InMemoryCircuitBreakerOptions := { failureThreshold := 1, cooldownMs := 10 }
    Runs.Throughout (step options settings) (RefusesOpen settings options) (init options)
      recovered :=
  -- One probe is permitted, as the theorem asks.
  refusesOpen_throughout rfl (by decide) recovered

/-- A breaker that permits no probes never lets its key recover once it was half-open. -/
theorem probing_forever (perKey : options.breaker = .factory)
    (forbidden : settings.halfOpenMaxAttempts ≤ 0) (key : κ)
    {first rest : List (ProtectedAction κ τ)} {middle last : ProtectedPool κ τ}
    (ran : Runs.run (step options settings) (init options) first = some middle)
    (probing : (middle.standing key).mode = .probing)
    (later : Runs.run (step options settings) middle rest = some last) :
    (last.standing key).mode = .probing ∧
      ∀ event ∈ Runs.transcript (step options settings) (notes key) middle rest,
        ∃ now, event = .called now false := by
  have keyed := (keyed_throughout perKey settings first).of_run ran
  have idle := keyed.probing probing
  rw [decide_eq_false (by omega)] at idle
  have stands : middle.standing key = ⟨.probing, false⟩ := by
    rw [← probing, ← idle]
  -- From there on the breaker is only ever asked in vain.
  have ahead := keyed.run_transcript perKey key later
  rw [stands] at ahead
  obtain ⟨stays, refused⟩ := Standing.stuck ahead
  exact ⟨by rw [stays], refused⟩

/-- A key whose breaker permits no probes is refused again, long after the cooldown. -/
theorem probing_forever_refused :
    let options : PoolOptions := { max := 1, breaker := .factory }
    let settings : InMemoryCircuitBreakerOptions :=
      { failureThreshold := 1, cooldownMs := 10, halfOpenMaxAttempts := 0 }
    let probed := recovered.take 16
    let again : List (ProtectedAction Nat Nat) :=
      [.settle 2, .pool (.deliver 2), .pool (.clock 1000), .pool (.acquire 7), .pool (.obtain 3),
        .create 3]
    ∃ middle last : ProtectedPool Nat Nat,
      Runs.run (step options settings) (init options) probed = some middle ∧
      Runs.run (step options settings) middle again = some last ∧
      (last.standing 7).mode = .probing ∧
      ∀ event ∈ Runs.transcript (step options settings) (notes 7) middle again,
        ∃ now, event = .called now false := by
  intro options settings probed again
  have ran : (Runs.run (step options settings) (init options) probed).isSome = true := by decide
  have later : (Runs.run (step options settings)
      ((Runs.run (step options settings) (init options) probed).get ran) again).isSome = true := by
    decide +revert
  -- The cooldown passes again and again, and no probe is permitted.
  exact ⟨_, _, Option.eq_some_of_isSome ran, Option.eq_some_of_isSome later,
    probing_forever rfl (by decide) 7 (Option.eq_some_of_isSome ran) (by decide +revert)
      (Option.eq_some_of_isSome later)⟩

end ProtectedPool

end RefPool
