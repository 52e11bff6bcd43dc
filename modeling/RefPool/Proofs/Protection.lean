import RefPool.Proofs.Bank
import RefPool.Proofs.Flow

/-! A breaker stays with its key while a creation runs through it, and while it is not closed. -/

namespace RefPool

variable {κ τ : Type} [DecidableEq κ]

namespace BreakerBank

/-- Whether a breaker is open or half-open. -/
def tripped (bank : BreakerBank κ) (b : BreakerId) : Bool :=
  (bank.objects[b]?).any fun breaker => breaker.state ≠ .closed

/-- Each key has a breaker of its own, and the pool is subscribed to no others. -/
structure Paired (bank : BreakerBank κ) : Prop where
  own : ∀ key b, bank.breakers.get? key = some b →
    ∃ breaker, bank.objects[b]? = some breaker ∧ breaker.key = some key
  heard : ∀ key b, bank.breakerUnsubs.get? key = some b → bank.breakers.get? key = some b

/-- A key keeps its breaker, the subscription to it, and the breaker itself as it is. -/
structure Keeps (key : κ) (b : BreakerId) (bank next : BreakerBank κ) : Prop where
  bound : next.breakers.get? key = some b
  heard : next.breakerUnsubs.get? key = bank.breakerUnsubs.get? key
  object : next.objects[b]? = bank.objects[b]?

variable {bank middle next : BreakerBank κ} {option : BreakerOption} {key : κ} {b : BreakerId}

/-- A key that keeps its breaker twice keeps it. -/
theorem Keeps.trans (first : Keeps key b bank middle) (second : Keeps key b middle next) :
    Keeps key b bank next :=
  -- The three equations compose.
  ⟨second.bound, second.heard.trans first.heard, second.object.trans first.object⟩

/-- Dropping the breaker of a key does nothing, or deletes a closed breaker of an absent key. -/
theorem dropBreaker_cases (bank : BreakerBank κ) (option : BreakerOption) (key : κ)
    (present : Bool) : bank.dropBreaker option key present = bank ∨
      ∃ b breaker, bank.breakers.get? key = some b ∧ bank.objects[b]? = some breaker ∧
        breaker.state = .closed ∧ present = false ∧ bank.dropBreaker option key present =
          { objects := match bank.breakerUnsubs.get? key with
              | none => bank.objects
              | some subscribed => bank.objects.modify subscribed fun breaker =>
                  { breaker with subscribed := false }
            breakers := bank.breakers.delete key
            breakerUnsubs := bank.breakerUnsubs.delete key } := by
  -- The guards are those of the source, in its order.
  unfold dropBreaker
  split
  · exact .inl rfl
  · split
    · exact .inl rfl
    · rename_i b bound
      split
      · exact .inl rfl
      · rename_i breaker found
        split
        · exact .inl rfl
        · rename_i closed
          split
          · exact .inl rfl
          · rename_i absent
            exact .inr ⟨b, breaker, bound, found, by simpa using closed, by simpa using absent, rfl⟩

namespace Paired

/-- Without breakers there is nothing to pair. -/
theorem empty (option : BreakerOption) : (BreakerBank.empty option : BreakerBank κ).Paired := by
  -- No key is bound, in either map.
  constructor <;> cases option <;> simp [BreakerBank.empty]

/-- A new breaker belongs to its key alone. -/
theorem resolve (paired : bank.Paired) {answer : BreakerMade}
    (resolved : bank.resolveBreaker option key answer = some next) : next.Paired := by
  unfold resolveBreaker at resolved
  split at resolved
  · cases resolved
    exact paired
  split at resolved
  · cases resolved
    exact paired
  -- The key has no breaker yet, so that one is made for it.
  rename_i absent
  split at resolved
  · cases resolved
  · rename_i observable state
    cases resolved
    constructor
    · intro other b bound
      by_cases same : other = key
      · subst same
        rw [OrderedMap.get?_set_self, Option.some.injEq] at bound
        subst bound
        exact ⟨_, List.getElem?_concat_length, rfl⟩
      · rw [OrderedMap.get?_set_ne _ _ same] at bound
        obtain ⟨breaker, found, name⟩ := paired.own other b bound
        exact ⟨breaker, Arena.getElem?_push_of_some _ found, name⟩
    · intro other b bound
      by_cases same : other = key
      · subst same
        cases observable
        · simp [paired.heard other b bound] at absent
        · simpa using bound
      · rw [OrderedMap.get?_set_ne _ _ same]
        refine paired.heard other b ?_
        cases observable
        · exact bound
        · simpa [OrderedMap.get?_set_ne _ _ same] using bound

/-- Dropping a breaker leaves the others with their keys. -/
theorem drop (paired : bank.Paired) (option : BreakerOption) (key : κ) (present : Bool) :
    (bank.dropBreaker option key present).Paired := by
  rcases dropBreaker_cases bank option key present with same | ⟨b, breaker, -, -, -, -, same⟩
  · rw [same]
    exact paired
  rw [same]
  constructor
  · intro other c bound
    obtain ⟨differ, before⟩ := OrderedMap.get?_of_delete bound
    obtain ⟨record, found, name⟩ := paired.own other c before
    -- Unsubscribing leaves every breaker its key.
    dsimp only
    split
    · exact ⟨record, found, name⟩
    · exact Arena.exists_getElem?_modify found (fun _ => name) fun _ => name
  · intro other c bound
    obtain ⟨differ, before⟩ := OrderedMap.get?_of_delete bound
    rw [OrderedMap.get?_delete_ne _ differ]
    exact paired.heard other c before

/-- A breaker that changes state stays with its key. -/
theorem change (paired : bank.Paired) (b : BreakerId) (state : BreakerState) :
    ({ bank with
      objects := bank.objects.modify b fun breaker => { breaker with state } } :
        BreakerBank κ).Paired where
  -- The record changes its state, and neither its key nor its binding.
  own := by
    intro key c bound
    obtain ⟨record, found, name⟩ := paired.own key c bound
    exact Arena.exists_getElem?_modify found (fun _ => name) fun _ => name
  heard := paired.heard

/-- Resolving a breaker takes no key's breaker away. -/
theorem keeps_resolve (paired : bank.Paired) {name : κ} {answer : BreakerMade}
    (resolved : bank.resolveBreaker option name answer = some next)
    (bound : bank.breakers.get? key = some b) : Keeps key b bank next := by
  unfold resolveBreaker at resolved
  split at resolved
  · cases resolved
    exact ⟨bound, rfl, rfl⟩
  split at resolved
  · cases resolved
    exact ⟨bound, rfl, rfl⟩
  rename_i absent
  -- The key has a breaker, so it is not the one that a breaker is made for.
  have differ : key ≠ name := by
    rintro rfl
    simp [bound] at absent
  split at resolved
  · cases resolved
  · rename_i observable state
    cases resolved
    obtain ⟨breaker, found, -⟩ := paired.own key b bound
    refine ⟨by rwa [OrderedMap.get?_set_ne _ _ differ], ?_, ?_⟩
    · cases observable
      · rfl
      · exact OrderedMap.get?_set_ne _ _ differ
    · rw [Arena.getElem?_push_of_some _ found, found]

/-- The breaker of a key that is present, or that is tripped, is not dropped. -/
theorem keeps_drop (paired : bank.Paired) (option : BreakerOption) (present : κ → Bool) (name : κ)
    (bound : bank.breakers.get? key = some b)
    (pinned : present key = true ∨ bank.tripped b = true) :
    Keeps key b bank (bank.dropBreaker option name (present name)) := by
  rcases dropBreaker_cases bank option name (present name) with
    same | ⟨c, breaker, bound', found, closed, absent, same⟩
  · rw [same]
    exact ⟨bound, rfl, rfl⟩
  -- What is dropped is closed and of an absent key, so it is of another key.
  have differ : key ≠ name := by
    rintro rfl
    cases bound.symm.trans bound'
    rcases pinned with here | tripped
    · simp [here] at absent
    · simp [BreakerBank.tripped, found, closed] at tripped
  rw [same]
  refine ⟨by rwa [OrderedMap.get?_delete_ne _ differ], OrderedMap.get?_delete_ne _ differ, ?_⟩
  dsimp only
  split
  · rfl
  · rename_i heard subscribed
    -- The subscription that ends is to the breaker of that other key.
    obtain ⟨record, read, own⟩ := paired.own key b bound
    obtain ⟨record', read', own'⟩ := paired.own name heard (paired.heard name heard subscribed)
    refine Arena.getElem?_modify_other _ _ ?_
    rintro rfl
    cases read.symm.trans read'
    exact differ (Option.some.inj (own.symm.trans own'))

/-- A collection keeps the pairs, and the breakers of present keys as well as tripped ones. -/
theorem collect (paired : bank.Paired) (present : κ → Bool) (names : List κ) :
    (names.foldl (fun bank name => bank.dropBreaker option name (present name)) bank).Paired ∧
      ∀ key b, bank.breakers.get? key = some b → present key = true ∨ bank.tripped b = true →
        Keeps key b bank
          (names.foldl (fun bank name => bank.dropBreaker option name (present name)) bank) := by
  -- One name after the other.
  induction names generalizing bank with
  | nil => exact ⟨paired, fun key b bound _ => ⟨bound, rfl, rfl⟩⟩
  | cons name rest ih =>
    obtain ⟨later, kept⟩ := ih (paired.drop option name (present name))
    refine ⟨later, fun key b bound pinned => ?_⟩
    have first := paired.keeps_drop option present name bound pinned
    refine first.trans (kept key b first.bound ?_)
    rwa [tripped, first.object]

end Paired

/-- A per-key breaker is there once it has been resolved. -/
theorem bound_of_resolve {answer : BreakerMade}
    (resolved : bank.resolveBreaker .factory key answer = some next) :
    ∃ b, next.breakers.get? key = some b := by
  unfold resolveBreaker at resolved
  -- The breaker was there, or it has just been made.
  cases bound : bank.breakers.get? key with
  | some b =>
    simp only [bound, Option.some.injEq] at resolved
    exact ⟨b, resolved ▸ bound⟩
  | none =>
    cases answer with
    | threw => simp [bound] at resolved
    | made observable state =>
      simp only [bound, Option.some.injEq] at resolved
      exact ⟨bank.objects.length, by rw [← resolved]; exact OrderedMap.get?_set_self _ _ _⟩

/-- Without a factory no key has a breaker of its own. -/
theorem resolve_shared {answer : BreakerMade} (shared : option ≠ .factory)
    (resolved : bank.resolveBreaker option key answer = some next) : next = bank := by
  -- A shared breaker is handed out as it is.
  unfold resolveBreaker at resolved
  cases option with
  | shared observable state => exact (Option.some.inj resolved).symm
  | factory => exact absurd rfl shared

end BreakerBank

namespace State

variable {options : PoolOptions} {s next : State κ τ} {action : Action κ τ} {bank : BreakerBank κ}
  {key : κ} {b : BreakerId}

/-- Every step leaves the breakers paired with their keys. -/
theorem BankEffect.paired (effect : BankEffect options s action bank)
    (paired : s.toBreakerBank.Paired) : bank.Paired := by
  -- Each change of the bank has its law.
  cases effect with
  | same => exact paired
  | resolved a acquire answer bank called phase made => exact paired.resolve made
  | dropped e entry => exact paired.drop _ entry.key _
  | collected => exact (paired.collect s.present _).1
  | changed b state => exact paired.change b state

/-- No step takes its breaker from a key that is present, or whose breaker is tripped. -/
theorem BankEffect.keeps (effect : BankEffect options s action bank)
    (paired : s.toBreakerBank.Paired) (bound : s.breakers.get? key = some b)
    (pinned : s.present key = true ∨ s.toBreakerBank.tripped b = true) :
    bank.breakers.get? key = some b ∧ bank.breakerUnsubs.get? key = s.breakerUnsubs.get? key ∧
      (bank.objects[b]? = s.objects[b]? ∨ ∃ state, action = .breakerChanged b state ∧
        bank.objects[b]? = (s.objects[b]?).map fun breaker => { breaker with state }) := by
  -- Only the breaker itself changes its state.
  have whole (keeps : BreakerBank.Keeps key b s.toBreakerBank bank) :
      bank.breakers.get? key = some b ∧ bank.breakerUnsubs.get? key = s.breakerUnsubs.get? key ∧
        (bank.objects[b]? = s.objects[b]? ∨ ∃ state, action = .breakerChanged b state ∧
          bank.objects[b]? = (s.objects[b]?).map fun breaker => { breaker with state }) :=
    ⟨keeps.bound, keeps.heard, .inl keeps.object⟩
  cases effect with
  | same => exact whole ⟨bound, rfl, rfl⟩
  | resolved a acquire answer bank called phase made =>
    exact whole (paired.keeps_resolve made bound)
  | dropped e entry => exact whole (paired.keeps_drop _ s.present entry.key bound pinned)
  | collected => exact whole ((paired.collect s.present _).2 key b bound pinned)
  | changed c state =>
    refine ⟨bound, rfl, ?_⟩
    by_cases same : c = b
    · subst same
      exact .inr ⟨state, rfl, by simp⟩
    · exact .inl (Arena.getElem?_modify_other _ _ same)

/-- Without a factory no step gives a key a breaker of its own. -/
theorem BankEffect.shared (effect : BankEffect options s action bank)
    (shared : options.breaker ≠ .factory) (absent : ∀ key, s.breakers.get? key = none) (key : κ) :
    bank.breakers.get? key = none := by
  have dropped (bank : BreakerBank κ) (name : κ) (present : Bool) :
      bank.dropBreaker options.breaker name present = bank := by
    unfold BreakerBank.dropBreaker
    cases option : options.breaker with
    | shared observable state => rfl
    | factory => exact absurd option shared
  -- A shared breaker is neither bound to a key nor dropped.
  cases effect with
  | same | changed => exact absent key
  | resolved a acquire answer bank called phase made =>
    rw [BreakerBank.resolve_shared shared made]
    exact absent key
  | dropped => rw [dropped]; exact absent key
  | collected =>
    simp only [dropped, List.foldl_fixed]
    exact absent key

end State

/-- A pool, and for each call of `exec` so far the breaker its key was bound to when it began. -/
structure Wired (κ τ : Type) where
  state : State κ τ
  through : List (Option BreakerId)

namespace Wired

open State

/-- A new pool, on which `exec` has not been called. -/
def init (options : PoolOptions) : Wired κ τ := ⟨State.init options, []⟩

/-- Take a step, and note the breaker that a new call of `exec` goes through. -/
def observe (options : PoolOptions) (w : Wired κ τ) (action : Action κ τ) :
    Option (Wired κ τ) :=
  (w.state.step options action).map fun next =>
    { state := next
      through := w.through ++
        (next.execs.drop w.state.execs.length).map fun exec => next.breakers.get? exec.key }

/-- A creation of the key runs through the breaker, or the key has it and it is not closed. -/
def Matters (w : Wired κ τ) (key : κ) (b : BreakerId) : Prop :=
  (∃ (x : ExecId) (exec : Exec κ τ), w.state.execs[x]? = some exec ∧ exec.key = key ∧
    exec.outcome = .pending ∧ w.through[x]? = some (some b)) ∨
  (w.state.breakers.get? key = some b ∧ w.state.toBreakerBank.tripped b = true)

/-- Breakers are not discarded while they matter. -/
structure Protected (options : PoolOptions) (w : Wired κ τ) : Prop where
  /-- A key has the breaker that matters for it. -/
  mapped : ∀ key b, w.Matters key b → w.state.breakers.get? key = some b
  /-- No step takes it away, replaces it, or touches the subscription to it. -/
  kept : ∀ key b, w.Matters key b → ∀ action next, w.state.step options action = some next →
    next.breakers.get? key = some b ∧
      next.breakerUnsubs.get? key = w.state.breakerUnsubs.get? key ∧
      (next.objects[b]?).map Breaker.subscribed = (w.state.objects[b]?).map Breaker.subscribed
  /-- Creations of one key that are in flight together run through one breaker. -/
  alone : ∀ (x y : ExecId) left right, w.state.execs[x]? = some left →
    w.state.execs[y]? = some right → left.outcome = .pending → right.outcome = .pending →
    left.key = right.key → w.through[x]? = w.through[y]?
  /-- As long as a tripped breaker does not close, it answers every creation of its key. -/
  answers : ∀ key b, w.state.breakers.get? key = some b → w.state.toBreakerBank.tripped b = true →
    ∀ actions last, (∀ action ∈ actions, action ≠ .breakerChanged b .closed) →
      Runs.run (observe options) w actions = some last →
      last.state.breakers.get? key = some b ∧ last.state.toBreakerBank.tripped b = true ∧
        ∀ (x : ExecId) exec, w.state.execs.length ≤ x → last.state.execs[x]? = some exec →
          exec.key = key → last.through[x]? = some (some b)

/-- What is known of the breakers and of the calls of `exec` in every run. -/
structure Recorded (options : PoolOptions) (w : Wired κ τ) : Prop where
  core : Core w.state
  paired : w.state.toBreakerBank.Paired
  aligned : w.through.length = w.state.execs.length
  /-- A creation in flight runs through the breaker that its key has now. -/
  current : ∀ (x : ExecId) exec, w.state.execs[x]? = some exec → exec.outcome = .pending →
    w.through[x]? = some (w.state.breakers.get? exec.key)
  perKey : options.breaker = .factory → ∀ (x : ExecId) exec, w.state.execs[x]? = some exec →
    exec.outcome = .pending → ∃ b, w.state.breakers.get? exec.key = some b
  shared : options.breaker ≠ .factory → ∀ key, w.state.breakers.get? key = none

variable {options : PoolOptions} {w next : Wired κ τ} {action : Action κ τ}

/-- Nothing is recorded of a new pool. -/
theorem recorded_init (options : PoolOptions) : Recorded options (init options : Wired κ τ) where
  -- There are neither execs nor bindings.
  core := core_init options
  paired := BreakerBank.Paired.empty options.breaker
  aligned := rfl
  current := by simp [init, State.init]
  perKey := by simp [init, State.init]
  shared := by
    intro _ key
    show (BreakerBank.empty options.breaker : BreakerBank κ).breakers.get? key = none
    cases options.breaker <;> rfl

/-- What was noted stays, and a new call of `exec` is noted with the breaker its key has. -/
theorem through_observe {s : State κ τ} {x : ExecId}
    (aligned : w.through.length = w.state.execs.length) :
    (w.through ++ (s.execs.drop w.state.execs.length).map fun exec =>
      s.breakers.get? exec.key)[x]? =
      if x < w.state.execs.length then w.through[x]?
      else (s.execs[x]?).map fun exec => s.breakers.get? exec.key := by
  rw [List.getElem?_append, aligned]
  -- An exec that was there keeps its breaker, and a new one has that of its key.
  split
  · rfl
  · rw [List.getElem?_map, List.getElem?_drop]
    congr 2
    omega

/-- A call of `exec` after a step is a new one, or was there with the same key. -/
theorem exec_observe {s : State κ τ} {x : ExecId} {exec : Exec κ τ} (core : Core w.state)
    (stepped : w.state.step options action = some s) (found : s.execs[x]? = some exec) :
    (x < w.state.execs.length ∧ ∃ old, w.state.execs[x]? = some old ∧ old.key = exec.key ∧
        (exec.outcome = .pending → old.outcome = .pending)) ∨
      (x = w.state.execs.length ∧
        (options.breaker = .factory → ∃ b, s.breakers.get? exec.key = some b)) := by
  have effect := step_effect stepped
  have old {x : ExecId} {exec : Exec κ τ} (before : w.state.execs[x]? = some exec) :
      x < w.state.execs.length := (List.getElem?_eq_some_iff.mp before).1
  have flow := effect.flow core.store
  -- Only a granted acquire calls `exec`, and a call that settles keeps its key.
  cases flow with
  | still _ same | called _ _ _ same | landed _ _ _ _ _ same =>
    rw [same] at found
    exact .inl ⟨old found, exec, found, rfl, id⟩
  | started a answer key same =>
    rw [same] at found
    rcases Arena.getElem?_push_cases found with ⟨rfl, rfl⟩ | before
    · refine .inr ⟨rfl, fun perKey => ?_⟩
      cases effect with
      | breakerless =>
        exact absurd (congrArg List.length same) (by simp [setPhase, releaseReservation])
      | creating _ acquire _ bank called phase resolved =>
        have named : acquire.key = key := by
          simpa [setPhase] using same
        rw [perKey] at resolved
        exact named ▸ BreakerBank.bound_of_resolve resolved
    · exact .inl ⟨old before, exec, before, rfl, id⟩
  | finished y answer other present outstanding same =>
    rw [same] at found
    rcases Arena.getElem?_modify_cases found with ⟨rfl, record, before, rfl⟩ | ⟨-, before⟩
    · refine .inl ⟨old before, record, before, rfl, fun pending => ?_⟩
      cases answer <;> simp [Outcome.ofAnswer] at pending
    · exact .inl ⟨old before, exec, before, rfl, id⟩

/-- A creation in flight runs through the breaker that its key has. -/
theorem Recorded.mapped (recorded : Recorded options w) {key : κ} {b : BreakerId}
    (matters : w.Matters key b) : w.state.breakers.get? key = some b ∧
      (w.state.present key = true ∨ w.state.toBreakerBank.tripped b = true) := by
  rcases matters with ⟨x, exec, found, rfl, outstanding, through⟩ | ⟨bound, tripped⟩
  · have current := recorded.current x exec found outstanding
    rw [through, Option.some.injEq] at current
    -- The call that awaits the creation marks the key as present.
    obtain ⟨acquire, called, named, phase⟩ :=
      recorded.core.execs.awaited x exec found outstanding
    have pending := pending_of_called recorded.core called (by rw [phase]; nofun)
    rw [named] at pending
    exact ⟨current.symm, .inl (by simp [present, pending])⟩
  · exact ⟨bound, .inr tripped⟩

/-- A step leaves a breaker that matters with its key. -/
theorem Recorded.keeps (recorded : Recorded options w) {key : κ} {b : BreakerId} {s : State κ τ}
    (matters : w.Matters key b) (stepped : w.state.step options action = some s) :
    s.breakers.get? key = some b ∧ s.breakerUnsubs.get? key = w.state.breakerUnsubs.get? key ∧
      (s.objects[b]? = w.state.objects[b]? ∨ ∃ state, action = .breakerChanged b state ∧
        s.objects[b]? = (w.state.objects[b]?).map fun breaker => { breaker with state }) := by
  -- A breaker that matters is bound and pinned, and such a one is kept.
  obtain ⟨bound, pinned⟩ := recorded.mapped matters
  exact (bank_of_step recorded.core.store stepped).keeps recorded.paired bound pinned

/-- Every step keeps the record. -/
theorem Recorded.observe (recorded : Recorded options w)
    (observed : observe options w action = some next) : Recorded options next := by
  obtain ⟨s, stepped, rfl⟩ := Option.map_eq_some_iff.mp observed
  have bank := bank_of_step recorded.core.store stepped
  have grown : w.state.execs.length ≤ s.execs.length := by
    cases (step_effect stepped).flow recorded.core.store with
    | still _ same | called _ _ _ same | landed _ _ _ _ _ same =>
      exact Nat.le_of_eq (by rw [same])
    | started _ _ _ same =>
      rw [same, List.length_append]
      exact Nat.le_add_right _ _
    | finished _ _ _ _ _ same => exact Nat.le_of_eq (by rw [same, List.length_modify])
  constructor
  · exact core_step recorded.core stepped
  · exact bank.paired recorded.paired
  · simp only [List.length_append, List.length_map, List.length_drop, recorded.aligned]
    omega
  · intro x exec found outstanding
    show (w.through ++ _)[x]? = some (s.breakers.get? exec.key)
    rw [through_observe recorded.aligned]
    rcases exec_observe recorded.core stepped found with
      ⟨less, old, before, named, still⟩ | ⟨rfl, -⟩
    -- The key of a creation that goes on keeps its breaker, or has never had one.
    · have current := recorded.current x old before (still outstanding)
      rw [if_pos less, current, ← named]
      by_cases perKey : options.breaker = .factory
      · obtain ⟨b, bound⟩ := recorded.perKey perKey x old before (still outstanding)
        rw [bound] at current ⊢
        rw [(recorded.keeps (.inl ⟨x, old, before, rfl, still outstanding, current⟩) stepped).1]
      · rw [recorded.shared perKey, bank.shared perKey (recorded.shared perKey)]
    · rw [if_neg (Nat.lt_irrefl _), found, Option.map_some]
  · intro perKey x exec found outstanding
    rcases exec_observe recorded.core stepped found with ⟨-, old, before, named, still⟩ | ⟨-, made⟩
    · obtain ⟨b, bound⟩ := recorded.perKey perKey x old before (still outstanding)
      have current := recorded.current x old before (still outstanding)
      rw [bound] at current
      have kept := recorded.keeps (.inl ⟨x, old, before, rfl, still outstanding, current⟩) stepped
      exact ⟨b, named ▸ kept.1⟩
    · exact made perKey
  · exact fun shared key => bank.shared shared (recorded.shared shared) key

/-- Where a tripped breaker was, it answers the creations of its key until it closes. -/
structure Answering (key : κ) (b : BreakerId) (since : Nat) (w : Wired κ τ) : Prop where
  bound : w.state.breakers.get? key = some b
  tripped : w.state.toBreakerBank.tripped b = true
  later : since ≤ w.state.execs.length
  noted : ∀ (x : ExecId) exec, since ≤ x → w.state.execs[x]? = some exec → exec.key = key →
    w.through[x]? = some (some b)

/-- A step that does not close the breaker leaves it answering. -/
theorem Answering.observe {key : κ} {b : BreakerId} {since : Nat} (recorded : Recorded options w)
    (unclosed : action ≠ .breakerChanged b .closed)
    (observed : Wired.observe options w action = some next)
    (answering : Answering key b since w) : Answering key b since next := by
  obtain ⟨s, stepped, rfl⟩ := Option.map_eq_some_iff.mp observed
  obtain ⟨bound, -, object⟩ := recorded.keeps (.inr ⟨answering.bound, answering.tripped⟩) stepped
  refine ⟨bound, ?_, ?_, fun x exec after found named => ?_⟩
  -- The breaker is as it was, or it has entered a state other than closed.
  · have tripped := answering.tripped
    unfold BreakerBank.tripped at tripped ⊢
    rcases object with same | ⟨state, rfl, same⟩
    · rw [same]
      exact tripped
    · rw [same, Option.any_map]
      obtain ⟨breaker, found, -⟩ := Option.any_eq_true _ _ |>.mp tripped
      have differ : state ≠ .closed := fun closed => unclosed (by rw [closed])
      simp [found, differ]
  · have aligned := (recorded.observe observed).aligned
    have grown : w.through.length ≤ (w.through ++ (s.execs.drop w.state.execs.length).map
      fun exec => s.breakers.get? exec.key).length := by
      rw [List.length_append]
      exact Nat.le_add_right _ _
    have before := recorded.aligned
    have since := answering.later
    dsimp only at aligned ⊢
    omega
  · show (w.through ++ _)[x]? = some (some b)
    rw [through_observe recorded.aligned]
    rcases exec_observe recorded.core stepped found with ⟨less, old, before, same, -⟩ | ⟨rfl, -⟩
    · rw [if_pos less]
      exact answering.noted x old after before (same.trans named)
    · rw [if_neg (Nat.lt_irrefl _), found, Option.map_some, named, bound]

/-- What is recorded protects the breakers that matter. -/
theorem Recorded.protects (recorded : Recorded options w) : Protected options w where
  mapped := fun key b matters => (recorded.mapped matters).1
  kept := by
    intro key b matters action next stepped
    obtain ⟨bound, heard, object⟩ := recorded.keeps matters stepped
    refine ⟨bound, heard, ?_⟩
    rcases object with same | ⟨state, -, same⟩
    · rw [same]
    · rw [same, Option.map_map]
      rfl
  alone := by
    intro x y left right found found' outstanding outstanding' same
    rw [recorded.current x left found outstanding, recorded.current y right found' outstanding',
      same]
  answers := by
    intro key b bound tripped actions last unclosed ran
    -- From here on, every call of `exec` for the key is noted with the breaker.
    have start : Answering key b w.state.execs.length w := by
      refine ⟨bound, tripped, Nat.le_refl _, fun x exec after found _ => ?_⟩
      exact absurd (List.getElem?_eq_some_iff.mp found).1 (Nat.not_lt.mpr after)
    have guarded : Runs.Guarded (Wired.observe options)
        (fun _ action => action ≠ .breakerChanged b .closed) w actions :=
      Runs.guarded_of_forall unclosed
    have kept := guarded.run_invariant
        (fun w => Recorded options w ∧ Answering key b _ w)
        (fun w action next ⟨recorded, answering⟩ unclosed observed =>
          ⟨recorded.observe observed, answering.observe recorded unclosed observed⟩)
        ⟨recorded, start⟩ ran
    exact ⟨kept.2.bound, kept.2.tripped, kept.2.noted⟩

/-- No per-key breaker is discarded while it matters, in any run. -/
theorem protected_throughout (options : PoolOptions) (actions : List (Action κ τ)) :
    Runs.Throughout (observe options) (Protected options) (init options) actions := by
  -- The record is an invariant, and protection is read off it.
  have kept : Runs.Throughout (observe options) (Recorded options) (init options) actions :=
    Runs.throughout_of_invariant (Recorded options)
      (fun w action next recorded observed => recorded.observe observed)
      (recorded_init options) actions
  exact kept.mono fun w recorded => recorded.protects

end Wired

end RefPool
