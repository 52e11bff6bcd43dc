import RefPool.Proofs.Equipped
import RefPool.Proofs.Exporters
import RefPool.Proofs.SequentialBreaker

/-! Per-key breakers are called one call at a time, and the pool mirrors the breaker of each key. -/

namespace RefPool

variable {κ τ : Type} [DecidableEq κ]

namespace BreakerBank

variable {bank made : BreakerBank κ} {breakers : List InMemoryCircuitBreaker}

/-- The pool has each breaker in the state it is in, wired for the key it is kept for. -/
structure Mirrors (bank : BreakerBank κ) (breakers : List InMemoryCircuitBreaker) : Prop where
  fitted : breakers.length = bank.objects.length
  wired : ∀ key b, bank.breakers.get? key = some b → ∃ breaker, breakers[b]? = some breaker ∧
    bank.objects[b]? = some ⟨breaker.state, some key, true⟩
  /-- The pool is subscribed to the breakers it keeps. -/
  subscribed : ∀ key, bank.breakerUnsubs.get? key = bank.breakers.get? key

namespace Mirrors

/-- Without breakers there is nothing to mirror. -/
theorem empty : (BreakerBank.empty .factory : BreakerBank κ).Mirrors [] := by
  -- No key has a breaker.
  constructor <;> simp [BreakerBank.empty]

/-- Two keys share no breaker. -/
theorem injective (mirrors : bank.Mirrors breakers) {key other : κ} {b : BreakerId}
    (bound : bank.breakers.get? key = some b) (bound' : bank.breakers.get? other = some b) :
    key = other := by
  -- The breaker is wired for one key only.
  obtain ⟨breaker, -, object⟩ := mirrors.wired key b bound
  obtain ⟨breaker', -, object'⟩ := mirrors.wired other b bound'
  have same := object.symm.trans object'
  simp only [Option.some.injEq, Breaker.mk.injEq] at same
  exact same.2.1

/-- The breaker of a key is at hand: the one that is kept for it, or a new one. -/
structure Resolves (bank made : BreakerBank κ) (breakers : List InMemoryCircuitBreaker)
    (key : κ) (b : BreakerId) : Prop where
  mirrors : made.Mirrors (breakers ++
    List.replicate (made.objects.length - breakers.length) InMemoryCircuitBreaker.new)
  others : ∀ other, other ≠ key → made.breakers.get? other = bank.breakers.get? other
  bound : made.breakers.get? key = some b
  /-- A key that had a breaker keeps it. -/
  lasting : ∀ old, bank.breakers.get? key = some old → b = old
  fresh : bank.breakers.get? key = none → b = breakers.length

/-- A breaker is resolved with one of the two in hand. -/
theorem resolve (mirrors : bank.Mirrors breakers) {key : κ}
    (resolved : bank.resolveBreaker .factory key (.made true) = some made) :
    ∃ b, Resolves bank made breakers key b := by
  unfold resolveBreaker at resolved
  cases kept : bank.breakers.get? key with
  -- The key has a breaker, and nothing is made.
  | some b =>
    simp only [kept, Option.some.injEq] at resolved
    subst resolved
    have nothing : bank.objects.length - breakers.length = 0 := by
      rw [mirrors.fitted, Nat.sub_self]
    refine ⟨b, ?_, fun _ _ => rfl, kept, fun old same => ?_, fun absent => ?_⟩
    · rw [nothing, List.replicate_zero, List.append_nil]
      exact mirrors
    · exact Option.some.inj (kept.symm.trans same)
    · cases kept.symm.trans absent
  -- The factory makes one, which is the next object and the next breaker.
  | none =>
    simp only [kept, if_true, Option.some.injEq] at resolved
    subst resolved
    have one : (bank.objects ++ [(⟨.closed, some key, true⟩ : Breaker κ)]).length -
        breakers.length = 1 := by
      rw [List.length_append, mirrors.fitted, List.length_singleton]
      omega
    refine ⟨bank.objects.length, ⟨?_, ?_, ?_⟩, fun other differ => ?_, ?_, fun old same => ?_,
      fun _ => mirrors.fitted.symm⟩
    · rw [one]
      simp [mirrors.fitted]
    · rw [one]
      intro other b bound
      by_cases same : other = key
      -- The new breaker is at the end of both lists.
      · subst same
        obtain rfl : bank.objects.length = b := by simpa using bound
        refine ⟨.new, ?_, List.getElem?_concat_length⟩
        rw [← mirrors.fitted]
        exact List.getElem?_concat_length
      · rw [OrderedMap.get?_set_ne _ _ same] at bound
        obtain ⟨breaker, found, object⟩ := mirrors.wired other b bound
        exact ⟨breaker, Arena.getElem?_push_of_some _ found,
          Arena.getElem?_push_of_some _ object⟩
    · intro other
      simp only [OrderedMap.get?_set, mirrors.subscribed]
    · exact OrderedMap.get?_set_ne _ _ differ
    · exact OrderedMap.get?_set_self _ _ _
    · cases kept.symm.trans same

/-- Breakers were dropped, each of which was closed and kept for an absent key. -/
structure Trims (bank after : BreakerBank κ) (breakers : List InMemoryCircuitBreaker)
    (present : κ → Bool) : Prop where
  mirrors : after.Mirrors breakers
  kept : ∀ key, after.breakers.get? key = bank.breakers.get? key ∨
    (after.breakers.get? key = none ∧ present key = false ∧
      ∃ b breaker, bank.breakers.get? key = some b ∧ breakers[b]? = some breaker ∧
        breaker.state = .closed)

/-- Dropping nothing is dropping closed breakers of absent keys. -/
theorem Trims.refl (mirrors : bank.Mirrors breakers) (present : κ → Bool) :
    Trims bank bank breakers present :=
  -- Every key keeps what it had.
  ⟨mirrors, fun _ => .inl rfl⟩

/-- Breakers that are dropped in two goes are dropped. -/
theorem Trims.trans {middle after : BreakerBank κ} {present : κ → Bool}
    (first : Trims bank middle breakers present) (second : Trims middle after breakers present) :
    Trims bank after breakers present := by
  refine ⟨second.mirrors, fun key => ?_⟩
  -- What the second go drops was there after the first one.
  rcases second.kept key with same | ⟨gone, absent, b, breaker, bound, found, closed⟩
  · rw [same]
    exact first.kept key
  · rcases first.kept key with same | ⟨gone', -⟩
    · exact .inr ⟨gone, absent, b, breaker, same ▸ bound, found, closed⟩
    · cases gone'.symm.trans bound

/-- A breaker is dropped where it is closed and its key is absent. -/
theorem drop (mirrors : bank.Mirrors breakers) (key : κ) (present : κ → Bool) :
    Trims bank (bank.dropBreaker .factory key (present key)) breakers present := by
  unfold dropBreaker
  cases bound : bank.breakers.get? key with
  | none => exact .refl mirrors present
  | some b =>
    obtain ⟨breaker, found, object⟩ := mirrors.wired key b bound
    simp only [object]
    split
    · exact .refl mirrors present
    · rename_i closed
      split
      · exact .refl mirrors present
      · rename_i absent
        rw [mirrors.subscribed, bound]
        refine ⟨⟨?_, ?_, ?_⟩, fun other => ?_⟩
        · rw [List.length_modify]
          exact mirrors.fitted
        -- The breaker that is unsubscribed from is kept for no other key.
        · intro other b' bound'
          obtain ⟨differ, before⟩ := OrderedMap.get?_of_delete bound'
          obtain ⟨breaker', found', object'⟩ := mirrors.wired other b' before
          refine ⟨breaker', found', ?_⟩
          rw [Arena.getElem?_modify_other _ _ ?_]
          · exact object'
          · rintro rfl
            exact differ (mirrors.injective before bound)
        · intro other
          simp only [OrderedMap.get?_delete, mirrors.subscribed]
        · by_cases same : other = key
          · subst same
            exact .inr ⟨OrderedMap.get?_delete_self _ _, by simpa using absent, b, breaker, bound,
              found, by simpa using closed⟩
          · exact .inl (OrderedMap.get?_delete_ne _ same)

/-- The collection drops closed breakers of absent keys. -/
theorem collect (mirrors : bank.Mirrors breakers) (present : κ → Bool) (names : List κ) :
    Trims bank (names.foldl (fun bank key => bank.dropBreaker .factory key (present key)) bank)
      breakers present := by
  -- One name after the other.
  induction names generalizing bank with
  | nil => exact .refl mirrors present
  | cons name rest ih =>
    have first := mirrors.drop name present
    exact first.trans (ih first.mirrors)

/-- A breaker changes state. -/
theorem change (mirrors : bank.Mirrors breakers) (b : BreakerId)
    (after : InMemoryCircuitBreaker) :
    ({ bank with
      objects := bank.objects.modify b fun breaker => { breaker with state := after.state } } :
        BreakerBank κ).Mirrors (breakers.modify b fun _ => after) := by
  -- Only that breaker has changed, here as there.
  refine ⟨?_, fun other b' bound' => ?_, mirrors.subscribed⟩
  · rw [List.length_modify, List.length_modify]
    exact mirrors.fitted
  · obtain ⟨breaker, found, object⟩ := mirrors.wired other b' bound'
    by_cases same : b = b'
    · subst same
      exact ⟨after, Arena.getElem?_modify_self _ found, Arena.getElem?_modify_self _ object⟩
    · rw [Arena.getElem?_modify_other _ _ same, Arena.getElem?_modify_other _ _ same]
      exact ⟨breaker, found, object⟩

/-- A breaker moves on within a state. -/
theorem of_same_state (mirrors : bank.Mirrors breakers) {b : BreakerId}
    {before after : InMemoryCircuitBreaker} (found : breakers[b]? = some before)
    (same : after.state = before.state) : bank.Mirrors (breakers.modify b fun _ => after) := by
  refine ⟨by rw [List.length_modify]; exact mirrors.fitted, fun key b' bound => ?_,
    mirrors.subscribed⟩
  -- The pool sees of a breaker no more than its state.
  obtain ⟨breaker, there, object⟩ := mirrors.wired key b' bound
  by_cases equal : b = b'
  · subst equal
    cases found.symm.trans there
    exact ⟨after, Arena.getElem?_modify_self _ found, same ▸ object⟩
  · rw [Arena.getElem?_modify_other _ _ equal]
    exact ⟨breaker, there, object⟩

end Mirrors

end BreakerBank

/-- Whether an exec at this stage awaits the factory. -/
def ExecStage.isAwaiting : ExecStage τ → Bool
  | .awaiting _ => true
  | .refused | .recorded _ => false

namespace ProtectedPool

variable {options : PoolOptions} {settings : InMemoryCircuitBreakerOptions}
  {s next : ProtectedPool κ τ}

omit [DecidableEq κ] in
/-- Whether a call of `exec` on a breaker awaits the factory. -/
def busy (s : ProtectedPool κ τ) (b : BreakerId) : Bool :=
  s.runs.any fun run => run.breaker = b && run.stage.isAwaiting

/-- What holds in every run of a pool whose breakers are kept by key. -/
structure Keyed (settings : InMemoryCircuitBreakerOptions) (s : ProtectedPool κ τ) : Prop where
  equipped : Equipped s
  mirrors : s.pool.toBreakerBank.Mirrors s.breakers
  /-- An exec in flight is on the breaker that is kept for its key. -/
  serving : ∀ (x : Nat) run exec, s.runs[x]? = some run → s.pool.execs[x]? = some exec →
    exec.outcome = .pending → s.pool.breakers.get? exec.key = some run.breaker
  /-- No breaker has more than one call in flight. -/
  sole : ∀ (b : Nat) breaker, s.breakers[b]? = some breaker → breaker.Sole settings (s.busy b)

/-- A new pool keeps no breaker. -/
theorem keyed_init (perKey : options.breaker = .factory) :
    Keyed settings (init options : ProtectedPool κ τ) := by
  -- Without a shared breaker the bank starts empty.
  refine ⟨equipped_init options, ?_, by simp [init], ?_⟩
  · have nothing : (init options : ProtectedPool κ τ).breakers = [] := by simp [init, perKey]
    rw [nothing]
    show (BreakerBank.empty options.breaker).Mirrors []
    rw [perKey]
    exact .empty
  · simp [init, perKey]

omit [DecidableEq κ] in
/-- Which breakers are busy can be told from the calls that await the factory. -/
theorem busy_eq_true {b : BreakerId} :
    s.busy b = true ↔ ∃ (x : Nat) (run : _) (c : _), s.runs[x]? = some run ∧ run.breaker = b ∧
      run.stage = .awaiting c := by
  unfold busy
  rw [List.any_eq_true]
  -- A run is at the stage of a call exactly when it awaits one.
  constructor
  · rintro ⟨run, inside, waits⟩
    obtain ⟨x, found⟩ := List.mem_iff_getElem?.mp inside
    rw [Bool.and_eq_true, decide_eq_true_eq] at waits
    cases stage : run.stage with
    | awaiting c => exact ⟨x, run, c, found, waits.1, stage⟩
    | refused | recorded => simp [stage, ExecStage.isAwaiting] at waits
  · rintro ⟨x, run, c, found, same, stage⟩
    exact ⟨run, List.mem_of_getElem? found, by simp [same, stage, ExecStage.isAwaiting]⟩

/-- The execs in flight are for keys that differ. -/
theorem Equipped.exec_unique (equipped : Equipped s) {x y : Nat} {exec other : Exec κ τ}
    (found : s.pool.execs[x]? = some exec) (outstanding : exec.outcome = .pending)
    (found' : s.pool.execs[y]? = some other) (outstanding' : other.outcome = .pending)
    (same : exec.key = other.key) : x = y := by
  obtain ⟨acquire, called, key, phase⟩ := equipped.core.execs.awaited x exec found outstanding
  obtain ⟨acquire', called', key', phase'⟩ :=
    equipped.core.execs.awaited y other found' outstanding'
  -- Both execs belong to the one call of the key that is in its turn.
  by_cases alone : exec.acquire = other.acquire
  · rw [← alone, called] at called'
    cases called'
    simpa [phase] using phase'
  · exact absurd (key'.trans (same.symm.trans key.symm)) (State.alone_of_running equipped.core
      called (by rw [phase]; rfl) _ acquire' alone called' (by rw [phase']; rfl))

/-- An exec in flight is for another key than a call that is granted a slot. -/
theorem Equipped.key_ne_of_granted (equipped : Equipped s) {a : AcquireId} {acquire : Acquire κ}
    {x : Nat} {exec : Exec κ τ} (called : s.pool.acquires[a]? = some acquire)
    (phase : acquire.phase = .granted) (found : s.pool.execs[x]? = some exec)
    (outstanding : exec.outcome = .pending) : exec.key ≠ acquire.key := by
  obtain ⟨other, called', key, creating⟩ := equipped.core.execs.awaited x exec found outstanding
  -- Only one call of the key is in its turn.
  have differ : a ≠ exec.acquire := by
    rintro rfl
    cases called.symm.trans called'
    cases phase.symm.trans creating
  intro same
  exact absurd (key.trans same) (State.alone_of_running equipped.core called (by rw [phase]; rfl)
    _ other differ called' (by rw [creating]; rfl))

/-- What a breaker announces reaches the pool, which mirrors the breaker from then on. -/
structure Told (pool heard : State κ τ) (breakers : List InMemoryCircuitBreaker) (key : κ)
    (b : BreakerId) (before after : InMemoryCircuitBreaker) : Prop where
  frame : ∃ objects counts, heard = pool.hearing objects counts (pool.events ++
    (before.mode.news after.mode).map fun state => ⟨state.announcement (some key), pool.now⟩)
  mirrors : heard.toBreakerBank.Mirrors (breakers.modify b fun _ => after)

/-- The announcements of a breaker that is kept for a key reach the pool. -/
theorem told_of_announce {pool heard : State κ τ} {breakers : List InMemoryCircuitBreaker}
    {key : κ} {b : BreakerId} {before after : InMemoryCircuitBreaker}
    (mirrors : pool.toBreakerBank.Mirrors breakers) (bound : pool.breakers.get? key = some b)
    (found : breakers[b]? = some before)
    (announced : after.announced = before.announced ++ before.mode.news after.mode)
    (told : announce options pool b before after = some heard) :
    Told pool heard breakers key b before after := by
  unfold announce at told
  rw [announced, List.drop_left] at told
  obtain ⟨breaker, there, object⟩ := mirrors.wired key b bound
  cases found.symm.trans there
  unfold SequentialBreaker.news at told
  by_cases same : after.state = before.state
  -- A breaker that keeps its state announces nothing.
  · simp only [InMemoryCircuitBreaker.mode_state, same, if_true, List.map_nil, Runs.run_nil,
      Option.some.injEq] at told
    subst told
    refine ⟨⟨pool.objects, pool.counters.breaker, ?_⟩, mirrors.of_same_state found same⟩
    simp [SequentialBreaker.news, same, State.hearing]
  · simp only [InMemoryCircuitBreaker.mode_state, same, if_false, List.map_cons, List.map_nil,
      Runs.run, State.step, object, Option.map_some, Option.bind_some, Option.some.injEq] at told
    subst told
    refine ⟨⟨pool.objects.modify b fun breaker => { breaker with state := after.state },
      pool.counters.breaker.bump after.state, ?_⟩, ?_⟩
    · cases state : after.state <;>
        simp [SequentialBreaker.news, State.hearing, State.breakerChanged, State.emit, state,
          BreakerState.announcement, state ▸ same]
    · have bank : (pool.breakerChanged b ⟨before.state, some key, true⟩
          after.state).toBreakerBank = { pool.toBreakerBank with
            objects := pool.objects.modify b fun breaker =>
              { breaker with state := after.state } } := by
        cases state : after.state <;> rfl
      rw [bank]
      exact mirrors.change b after

omit [DecidableEq κ] in
/-- A breaker that a creation has at hand is one that was there, or a new one. -/
theorem equipped_found {bank : BreakerBank κ} {b : BreakerId} {breaker : InMemoryCircuitBreaker}
    (found : (s.equipped bank)[b]? = some breaker) : breaker = (s.breakers[b]?).getD .new := by
  -- The breakers that are there come first.
  unfold equipped at found
  by_cases inside : b < s.breakers.length
  · rw [List.getElem?_append_left inside] at found
    rw [found, Option.getD_some]
  · have beyond : s.breakers.length ≤ b := Nat.le_of_not_lt inside
    rw [List.getElem?_append_right beyond, List.getElem?_replicate] at found
    rw [List.getElem?_eq_none beyond, Option.getD_none]
    split at found
    · exact (Option.some.inj found).symm
    · cases found

/-- What a creation does to the breaker of its key, which has no call in flight before. -/
structure Serves (settings : InMemoryCircuitBreakerOptions) (s : ProtectedPool κ τ)
    (a : AcquireId) (key : κ) (bank : BreakerBank κ) (b : BreakerId)
    (breaker after : InMemoryCircuitBreaker) (admission : Admission) (heard : State κ τ) :
    Prop where
  resolves : BreakerBank.Mirrors.Resolves s.pool.toBreakerBank bank s.breakers key b
  idle : s.busy b = false
  found : breaker = (s.breakers[b]?).getD .new
  called : InMemoryCircuitBreaker.Called settings breaker s.pool.now after admission
  told : Told (s.pool.starting a key bank) heard (s.equipped bank) key b breaker after

/-- A breaker that an exec in flight is on is there. -/
theorem Keyed.exec_of_busy (keyed : Keyed settings s) {b : BreakerId} (busy : s.busy b = true) :
    ∃ (x : Nat) (run : _) (exec : _), s.runs[x]? = some run ∧ s.pool.execs[x]? = some exec ∧
      exec.outcome = .pending ∧ run.breaker = b ∧ s.pool.breakers.get? exec.key = some b := by
  -- The run awaits a factory call, so its exec is pending and its key is served.
  obtain ⟨x, run, c, found, rfl, stage⟩ := busy_eq_true.mp busy
  obtain ⟨-, exec, there, outstanding⟩ := keyed.equipped.linked.awaited x run c found stage
  exact ⟨x, run, exec, found, there, outstanding, rfl,
    keyed.serving x run exec found there outstanding⟩

/-- A breaker that is not there is not busy. -/
theorem Keyed.idle_of_absent (keyed : Keyed settings s) {b : BreakerId}
    (absent : s.breakers[b]? = none) : s.busy b = false := by
  -- A busy breaker is on the list of the pool.
  refine Bool.eq_false_iff.mpr fun busy => ?_
  obtain ⟨x, run, exec, -, -, -, -, bound⟩ := keyed.exec_of_busy busy
  obtain ⟨breaker, found, -⟩ := keyed.mirrors.wired exec.key b bound
  cases absent.symm.trans found

/-- A creation is served by the breaker of its key. -/
theorem Creation.serves {a : AcquireId} {acquire : Acquire κ} {bank : BreakerBank κ}
    {b : BreakerId} {breaker after : InMemoryCircuitBreaker} {admission : Admission}
    {heard : State κ τ} (perKey : options.breaker = .factory) (keyed : Keyed settings s)
    (creation : Creation options settings s a acquire bank b breaker after admission heard) :
    Serves settings s a acquire.key bank b breaker after admission heard := by
  have resolved := creation.resolved
  rw [perKey] at resolved
  obtain ⟨b', resolves⟩ := keyed.mirrors.resolve resolved
  -- The breaker that answers is the one that was resolved.
  have bound := creation.bound
  unfold breakerFor at bound
  rw [perKey] at bound
  obtain rfl : b = b' := Option.some.inj (bound.symm.trans resolves.bound)
  have found : (s.equipped bank)[b]? = some breaker := creation.found
  have known := equipped_found found
  have idle : s.busy b = false := by
    cases there : s.breakers[b]? with
    | none => exact keyed.idle_of_absent there
    | some old =>
      refine Bool.eq_false_iff.mpr fun busy => ?_
      -- An exec on the breaker would be for the key, which has a granted call.
      obtain ⟨x, run, exec, -, present, outstanding, -, kept⟩ := keyed.exec_of_busy busy
      have differ :=
        keyed.equipped.key_ne_of_granted creation.called creation.phase present outstanding
      have same := resolves.mirrors.injective
        ((resolves.others exec.key differ).trans kept) resolves.bound
      exact differ same
  have sole : breaker.Sole settings false := by
    rw [known]
    cases there : s.breakers[b]? with
    | none => exact InMemoryCircuitBreaker.sole_new
    | some old => exact idle ▸ keyed.sole b old there
  have called := InMemoryCircuitBreaker.exec_called sole creation.answered
  exact ⟨resolves, idle, known, called,
    told_of_announce resolves.mirrors bound found called.announced creation.told⟩

/-- What the end of a factory call does to the breaker of its key. -/
structure Ends (settings : InMemoryCircuitBreakerOptions) (s : ProtectedPool κ τ) (x : ExecId)
    (run : BreakerRun τ) (key : κ) (breaker after : InMemoryCircuitBreaker) (succeeded : Bool)
    (heard : State κ τ) : Prop where
  exec : ∃ exec, s.pool.execs[x]? = some exec ∧ exec.key = key ∧ exec.outcome = .pending
  bound : s.pool.breakers.get? key = some run.breaker
  busy : s.busy run.breaker = true
  alone : ∀ (y : Nat) other c, s.runs[y]? = some other → other.breaker = run.breaker →
    other.stage = .awaiting c → y = x
  settled : InMemoryCircuitBreaker.Settled settings breaker s.pool.now succeeded after
  told : Told s.pool heard s.breakers key run.breaker breaker after

/-- The end of a factory call is recorded by the breaker of its key, on which it was alone. -/
theorem Keyed.ends (keyed : Keyed settings s) {x : ExecId} {run : BreakerRun τ} {c : FactoryId}
    {outcome : Option τ} {breaker : InMemoryCircuitBreaker} {heard : State κ τ}
    (found : s.runs[x]? = some run) (stage : run.stage = .awaiting c)
    (known : s.breakers[run.breaker]? = some breaker)
    (told : announce options s.pool run.breaker breaker
      (breaker.settle settings s.pool.now (fun _ => false) (resultOf outcome)).1 = some heard) :
    ∃ key, Ends settings s x run key breaker
      (breaker.settle settings s.pool.now (fun _ => false) (resultOf outcome)).1 outcome.isSome
      heard := by
  obtain ⟨-, exec, there, outstanding⟩ := keyed.equipped.linked.awaited x run c found stage
  have bound := keyed.serving x run exec found there outstanding
  have busy : s.busy run.breaker = true := busy_eq_true.mpr ⟨x, run, c, found, rfl, stage⟩
  have sole := keyed.sole run.breaker breaker known
  rw [busy] at sole
  have settled := InMemoryCircuitBreaker.settle_settled sole s.pool.now (resultOf outcome)
  have same : (resultOf outcome).isOk = outcome.isSome := by cases outcome <;> rfl
  rw [same] at settled
  refine ⟨exec.key, ⟨exec, there, rfl, outstanding⟩, bound, busy, ?_, settled,
    told_of_announce keyed.mirrors bound known settled.announced told⟩
  -- Two calls on the breaker would be for one key.
  intro y other c' found' shared stage'
  obtain ⟨-, exec', there', outstanding'⟩ :=
    keyed.equipped.linked.awaited y other c' found' stage'
  have bound' := keyed.serving y other exec' found' there' outstanding'
  rw [shared] at bound'
  exact keyed.equipped.exec_unique there' outstanding' there outstanding
    (keyed.mirrors.injective bound' bound)

/-- The breakers that a step of the pool drops are closed and kept for absent keys. -/
theorem Keyed.trims (keyed : Keyed settings s) (perKey : options.breaker = .factory)
    {action : Action κ τ} {pool : State κ τ} (foreign : action.ofBreaker = false)
    (stepped : s.pool.step options action = some pool) :
    BreakerBank.Mirrors.Trims s.pool.toBreakerBank pool.toBreakerBank s.breakers
      s.pool.present := by
  have mirrors := keyed.mirrors
  have effect := State.bank_of_step keyed.equipped.core.store stepped
  generalize pool.toBreakerBank = bank at effect
  -- The breakers are resolved and changed by steps that concern a breaker only.
  cases effect with
  | same => exact .refl mirrors _
  | dropped e entry =>
    rw [perKey]
    exact mirrors.drop entry.key s.pool.present
  | collected =>
    rw [perKey]
    exact mirrors.collect s.pool.present s.pool.breakers.keys
  | resolved | changed => cases foreign

/-- The key of an exec in flight is present. -/
theorem Equipped.present_of_pending (equipped : Equipped s) {x : Nat} {exec : Exec κ τ}
    (found : s.pool.execs[x]? = some exec) (outstanding : exec.outcome = .pending) :
    s.pool.present exec.key = true := by
  obtain ⟨acquire, called, key, phase⟩ := equipped.core.execs.awaited x exec found outstanding
  -- The acquire that awaits the exec marks the key.
  have marked := State.pending_of_called equipped.core called (by rw [phase]; simp [Phase.stage])
  rw [key] at marked
  simp [State.present, marked]

omit [DecidableEq κ] in
/-- A new exec makes its breaker busy where it awaits the factory. -/
theorem busy_push {b other : BreakerId} {stage : ExecStage τ}
    (runs : next.runs = s.runs ++ [⟨b, stage⟩]) :
    next.busy other = (s.busy other || (decide (b = other) && stage.isAwaiting)) := by
  -- One run more is asked whether it awaits.
  simp [busy, runs, List.any_append]

/-- A creation leaves a pool keyed. -/
theorem Serves.keyed {a : AcquireId} {acquire : Acquire κ} {bank : BreakerBank κ} {b : BreakerId}
    {breaker after : InMemoryCircuitBreaker} {admission : Admission} {heard : State κ τ}
    (serves : Serves settings s a acquire.key bank b breaker after admission heard)
    (keyed : Keyed settings s) (called : s.pool.acquires[a]? = some acquire)
    (phase : acquire.phase = .granted) {stage : ExecStage τ}
    (waits : stage.isAwaiting = decide (admission = .admitted)) (equipped : Equipped next)
    (kept : next.pool.toBreakerBank = heard.toBreakerBank)
    (execs : next.pool.execs = heard.execs) (runs : next.runs = s.runs ++ [⟨b, stage⟩])
    (breakers : next.breakers = (s.equipped bank).modify b fun _ => after) :
    Keyed settings next := by
  obtain ⟨⟨objects, counts, same⟩, mirrors⟩ := serves.told
  have bound (key : κ) : next.pool.breakers.get? key = bank.breakers.get? key := by
    rw [kept, same]
    rfl
  refine ⟨equipped, by rw [kept, breakers]; exact mirrors, ?_, ?_⟩
  · intro x run exec found there outstanding
    rw [execs, same] at there
    rw [runs] at found
    rw [bound]
    -- The exec is the new one, or it is for another key.
    rcases Arena.getElem?_push_cases there with ⟨rfl, rfl⟩ | before
    · rw [← keyed.equipped.linked.aligned] at found
      obtain rfl : ⟨b, stage⟩ = run := by simpa using found
      exact serves.resolves.bound
    · have differ := keyed.equipped.key_ne_of_granted called phase before outstanding
      rw [serves.resolves.others exec.key differ]
      rcases Arena.getElem?_push_cases found with ⟨rfl, rfl⟩ | found
      · rw [keyed.equipped.linked.aligned, List.getElem?_eq_none (Nat.le_refl _)] at before
        cases before
      · exact keyed.serving x run exec found before outstanding
  · intro other record found
    rw [busy_push runs]
    rw [breakers] at found
    by_cases same : b = other
    · subst same
      obtain ⟨old, -, rfl⟩ : ∃ old, (s.equipped bank)[b]? = some old ∧ after = record := by
        rcases Arena.getElem?_modify_cases found with ⟨-, old, before, rfl⟩ | ⟨differ, -⟩
        · exact ⟨old, before, rfl⟩
        · exact absurd rfl differ
      rw [serves.idle, waits]
      simpa using serves.called.sole
    -- The other breakers are as they were, and new ones are idle.
    · rw [Arena.getElem?_modify_other _ _ same] at found
      simp only [same, decide_false, Bool.false_and, Bool.or_false]
      rw [equipped_found found]
      cases there : s.breakers[other]? with
      | none =>
        rw [keyed.idle_of_absent there]
        exact InMemoryCircuitBreaker.sole_new
      | some old => exact keyed.sole other old there

/-- The breaker of an exec that records the end of its call is idle afterwards. -/
theorem Ends.busy_next {x : ExecId} {run : BreakerRun τ} {key : κ}
    {breaker after : InMemoryCircuitBreaker} {succeeded : Bool} {heard : State κ τ}
    (ends : Ends settings s x run key breaker after succeeded heard)
    (found : s.runs[x]? = some run) {outcome : Option τ}
    (runs : next.runs = s.runs.modify x fun run => { run with stage := .recorded outcome })
    (b : BreakerId) : next.busy b = (s.busy b && !decide (b = run.breaker)) := by
  -- The calls that still await the factory are those of the other execs.
  refine Bool.eq_iff_iff.mpr ?_
  rw [busy_eq_true, Bool.and_eq_true, busy_eq_true, runs]
  constructor
  · rintro ⟨y, other, c, read, rfl, stage⟩
    rcases Arena.getElem?_modify_cases read with ⟨rfl, old, before, rfl⟩ | ⟨differ, before⟩
    · cases stage
    · refine ⟨⟨y, other, c, before, rfl, stage⟩, ?_⟩
      rw [Bool.not_eq_eq_eq_not, Bool.not_true, decide_eq_false_iff_not]
      exact fun shared => differ (ends.alone y other c before shared stage).symm
  · rintro ⟨⟨y, other, c, before, rfl, stage⟩, apart⟩
    refine ⟨y, other, c, ?_, rfl, stage⟩
    rw [Arena.getElem?_modify_other _ _ ?_]
    · exact before
    · rintro rfl
      cases found.symm.trans before
      simp at apart

/-- Every step leaves a pool keyed. -/
theorem Effect.keyed {action : ProtectedAction κ τ} (perKey : options.breaker = .factory)
    (keyed : Keyed settings s) (effect : Effect options settings s action next) :
    Keyed settings next := by
  have equipped := effect.equipped keyed.equipped
  cases effect with
  | passed action pool foreign stepped =>
    have trims := keyed.trims perKey foreign stepped
    refine ⟨equipped, trims.mirrors, fun x run exec found there outstanding => ?_, keyed.sole⟩
    have execs : pool.execs = s.pool.execs := by
      cases (State.step_effect stepped).flow keyed.equipped.core.store with
      | still _ execs => exact execs
      | landed _ _ _ _ _ execs => exact execs
      | started | called | finished => cases foreign
    rw [show ({ s with pool } : ProtectedPool κ τ).pool = pool from rfl, execs] at there
    have bound := keyed.serving x run exec found there outstanding
    -- The key of an exec in flight is not absent, so that its breaker is not dropped.
    rcases trims.kept exec.key with same | ⟨-, absent, -⟩
    · exact same.trans bound
    · cases absent.symm.trans (keyed.equipped.present_of_pending there outstanding)
  -- A call through a breaker gets the one of its key, which may be new.
  | called a acquire bank b breaker after heard creation stepped =>
    exact (creation.serves perKey keyed).keyed keyed creation.called creation.phase rfl equipped
      rfl rfl rfl rfl
  | refused a acquire bank b breaker after admission heard creation unadmitted =>
    exact (creation.serves perKey keyed).keyed keyed creation.called creation.phase
      (by simp [ExecStage.isAwaiting, unadmitted]) equipped rfl rfl rfl rfl
  -- The call ends with its breaker, and no other breaker notices.
  | recorded x run c call outcome breaker heard found stage made landed known told =>
    obtain ⟨key, ends⟩ := keyed.ends found stage known told
    obtain ⟨⟨objects, counts, same⟩, mirrors⟩ := ends.told
    refine ⟨equipped, mirrors, fun y other exec read there outstanding => ?_, ?_⟩
    · have bound (key : κ) : heard.breakers.get? key = s.pool.breakers.get? key := by
        rw [same]
        rfl
      have execs : heard.execs = s.pool.execs := by
        rw [same]
        rfl
      rw [show _ = heard.execs from rfl, execs] at there
      show heard.breakers.get? exec.key = _
      rw [bound]
      rcases Arena.getElem?_modify_cases read with ⟨rfl, old, before, rfl⟩ | ⟨-, before⟩
      · exact keyed.serving x old exec before there outstanding
      · exact keyed.serving y other exec before there outstanding
    · intro b record read
      rw [ends.busy_next found rfl b]
      rcases Arena.getElem?_modify_cases read with ⟨rfl, old, before, rfl⟩ | ⟨differ, before⟩
      · simpa using ends.settled.sole
      · have apart : decide (b = run.breaker) = false := decide_eq_false (Ne.symm differ)
        rw [apart, Bool.not_false, Bool.and_true]
        exact keyed.sole b record before
  -- The exec that settles is outstanding no more, and the others are as before.
  | settled x run outcome pool found stage stepped =>
    cases State.step_effect stepped with
    | execRejected | execLate | inserted =>
      refine ⟨equipped, keyed.mirrors, fun y other exec read there outstanding => ?_, keyed.sole⟩
      rcases Arena.getElem?_modify_cases there with ⟨rfl, old, before, rfl⟩ | ⟨-, before⟩
      · cases outstanding
      · exact keyed.serving y other exec read before outstanding

end ProtectedPool

end RefPool
