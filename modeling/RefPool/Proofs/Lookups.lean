import RefPool.Proofs.Lifecycle

/-! Every hit and every miss is counted by one call of `acquire`, which counts no other. -/

namespace RefPool

variable {κ τ : Type}

/-- What has become of the lookup of a call. -/
inductive Lookup where
  /-- It is still going on. -/
  | undecided
  /-- It missed, and the entry is being created. -/
  | creating
  /-- The call has its entry, found or created. -/
  | served
  /-- The call is rejected. -/
  | rejected
  deriving DecidableEq

/-- What has become of the lookup of a call in its phase. -/
def Phase.lookup : Phase → Lookup
  | .queued _ | .validating _ | .discarding _ => .undecided
  -- A creation is in progress until the call has the entry or an error.
  | .parked _ | .granted | .creating _ | .closing => .creating
  | .returned _ | .fulfilled _ => .served
  | .threw _ | .rejected _ => .rejected

/-- What the counters of hits, misses and creations read, or by how much they moved. -/
structure Charge where
  hits : Nat
  misses : Nat
  created : Nat
  deriving DecidableEq

namespace Charge

/-- Nothing is charged. -/
def zero : Charge := ⟨0, 0, 0⟩

/-- One charge on top of another. -/
def add (charge more : Charge) : Charge :=
  ⟨charge.hits + more.hits, charge.misses + more.misses, charge.created + more.created⟩

/-- By how much the counters have moved from one reading to the next. -/
def since (after before : Charge) : Charge :=
  ⟨after.hits - before.hits, after.misses - before.misses, after.created - before.created⟩

/-- What was put on top of a charge is what it has moved by. -/
@[simp] theorem add_since (charge more : Charge) : (charge.add more).since charge = more := by
  -- Subtraction undoes addition, field by field.
  simp [add, since]

@[simp] theorem zero_add (charge : Charge) : zero.add charge = charge := by
  -- Addition of zero, field by field.
  simp [add, zero]

/-- What a call has been charged, by what has become of its lookup. -/
def Fits (charge : Charge) : Lookup → Prop
  | .undecided => charge = zero
  | .creating => charge = ⟨0, 1, 0⟩
  -- A hit, or a miss and the creation that followed it.
  | .served => charge = ⟨1, 0, 0⟩ ∨ charge = ⟨0, 1, 1⟩
  -- The call was rejected before it missed, or afterwards.
  | .rejected => charge = zero ∨ charge = ⟨0, 1, 0⟩

/-- A lookup is charged once at most. -/
theorem Fits.le_one {charge : Charge} {lookup : Lookup} (fits : charge.Fits lookup) :
    charge.hits + charge.misses ≤ 1 := by
  -- Every lookup has at most two charges to choose from.
  cases lookup with
  | undecided => simp [show charge = zero from fits, zero]
  | creating => simp [show charge = ⟨0, 1, 0⟩ from fits]
  | served | rejected => rcases fits with same | same <;> simp [same, zero]

/-- A lookup that came to an entry is charged once. -/
theorem Fits.eq_one {charge : Charge} (fits : charge.Fits .served) :
    charge.hits + charge.misses = 1 := by
  -- It was charged as a hit or as a miss.
  rcases fits with same | same <;> simp [same]

end Charge

/-- What the counters read. -/
def Counters.charge (counters : Counters) : Charge :=
  ⟨counters.hits, counters.misses, counters.created⟩

/-- What a call is charged for a step, by what becomes of its lookup. -/
inductive Charges : Lookup → Lookup → Charge → Prop
  /-- An entry is found. -/
  | hit : Charges .undecided .served ⟨1, 0, 0⟩
  /-- None is found, and the call tries for a slot. -/
  | missed : Charges .undecided .creating ⟨0, 1, 0⟩
  /-- None is found, and the call is turned away at once. -/
  | turnedAway : Charges .undecided .rejected ⟨0, 1, 0⟩
  /-- The entry is created. -/
  | created : Charges .creating .served ⟨0, 0, 1⟩
  /-- The call fails before it misses. -/
  | refused : Charges .undecided .rejected .zero
  /-- The creation fails. -/
  | failed : Charges .creating .rejected .zero
  /-- The call goes on where it was. -/
  | onward (lookup : Lookup) : Charges lookup lookup .zero

/-- What a call has been charged still fits after a step. -/
theorem Charges.fits {before after : Lookup} {gain charge : Charge}
    (charges : Charges before after gain) (fits : charge.Fits before) :
    (charge.add gain).Fits after := by
  -- Only a call that missed is charged for a creation, and only an undecided one for its lookup.
  cases charges with
  | onward => exact fits
  | hit => exact .inl (by rw [show charge = .zero from fits]; rfl)
  | missed => exact (by rw [show charge = .zero from fits]; rfl)
  | turnedAway => exact .inr (by rw [show charge = .zero from fits]; rfl)
  | created => exact .inr (by rw [show charge = ⟨0, 1, 0⟩ from fits]; rfl)
  | refused => exact .inl (by rw [show charge = .zero from fits]; rfl)
  | failed => exact .inr (by rw [show charge = ⟨0, 1, 0⟩ from fits]; rfl)

namespace State

variable [DecidableEq κ] {options : PoolOptions} {s next : State κ τ} {a : AcquireId} {key : κ}
  {acquire : Acquire κ}

/-- What a step does to the calls of `acquire` and to the counters. -/
inductive ChargeEffect (s : State κ τ) : Action κ τ → List (Acquire κ) → Charge → Prop
  /-- A step of no call counts nothing. -/
  | free (action : Action κ τ) (alien : s.actor action = none) :
      ChargeEffect s action s.acquires s.counters.charge
  /-- A call goes on, and is charged for it. -/
  | moved (action : Action κ τ) (a : AcquireId) (acquire : Acquire κ) (phase : Phase)
      (gain : Charge) (own : s.actor action = some a) (called : s.acquires[a]? = some acquire)
      (charges : Charges acquire.phase.lookup phase.lookup gain) :
      ChargeEffect s action (s.acquires.modify a fun acquire => { acquire with phase })
        (s.counters.charge.add gain)
  /-- A call is made, and is charged if it has its entry at once. -/
  | made (key : κ) (acquire : Acquire κ) (gain : Charge)
      (charges : Charges .undecided acquire.phase.lookup gain) :
      ChargeEffect s (.acquire key) (s.acquires ++ [acquire]) (s.counters.charge.add gain)

/-- A turn of the reservation loop counts nothing. -/
theorem SlotEffect.charges (effect : SlotEffect options s a next) :
    next.counters.charge = s.counters.charge ∧
      ∃ phase, (phase.lookup = .creating ∨ phase.lookup = .rejected) ∧
        next.acquires = s.acquires.modify a fun acquire => { acquire with phase } := by
  -- The reservation loop counts neither hits nor misses.
  cases effect with
  | unbounded | reserved | evicted => exact ⟨rfl, .granted, .inl rfl, rfl⟩
  | refused => exact ⟨rfl, .threw .poolClosed, .inr rfl, rfl⟩
  | exhausted => exact ⟨rfl, .threw .poolExhausted, .inr rfl, rfl⟩
  | parked => exact ⟨rfl, .parked s.waiters.length, .inl rfl, rfl⟩

/-- `obtain` from the orphan lookup on counts a hit, or a miss unless the pool is closed. -/
theorem MissEffect.charges (effect : MissEffect options s a key next) :
    ∃ phase gain, Charges .undecided phase.lookup gain ∧
      next.counters.charge = s.counters.charge.add gain ∧
        next.acquires = s.acquires.modify a fun acquire => { acquire with phase } := by
  cases effect with
  | resurrected e => exact ⟨.returned e, _, .hit, rfl, rfl⟩
  | refused => exact ⟨.threw .poolClosed, _, .refused, rfl, rfl⟩
  | slot _ _ _ effect =>
    -- The miss is counted before the first turn of the loop.
    obtain ⟨counted, phase, kind, moved⟩ := effect.charges
    refine ⟨phase, ⟨0, 1, 0⟩, ?_, counted, moved⟩
    rcases kind with creating | rejected
    · exact creating ▸ .missed
    · exact rejected ▸ .turnedAway

/-- Dropping a reference counts nothing. -/
theorem ReleaseEffect.charge_eq {e : EntryId} (effect : ReleaseEffect s e next) :
    next.counters.charge = s.counters.charge := by
  -- No counter of lookups is among what it writes.
  cases effect <;> rfl

/-- A drain counts nothing. -/
theorem charge_drain (wf : s.toStore.WellFormed) :
    s.drain.counters.charge = s.counters.charge := by
  -- It evicts and condemns, which are counted elsewhere.
  have walked := drain_rule (s := s)
    (P := fun next _ => next.counters.charge = s.counters.charge) wf ?idle ?held ?orphan rfl
  case idle => exact fun _ _ _ _ _ same _ _ _ => same
  case held => exact fun _ _ _ _ _ same _ _ _ => same
  case orphan => exact fun _ _ _ _ _ same _ _ _ => same
  obtain ⟨last, waits, -, counted, -, same⟩ := walked
  rw [same]
  exact counted

/-- A sweep counts nothing. -/
theorem charge_sweep (wf : s.toStore.WellFormed) :
    (s.sweep options).counters.charge = s.counters.charge :=
  -- An eviction counts as such, and not as a lookup.
  (sweep_rule options (P := fun next => next.counters.charge = s.counters.charge) wf
    (fun _ _ _ _ same _ _ _ => same) (fun _ _ same => same) rfl).2

/-- Every step has one of the effects on the calls and the counters. -/
theorem Effect.charges {action : Action κ τ} (core : Core s)
    (effect : Effect options s action next) :
    ChargeEffect s action next.acquires next.counters.charge := by
  -- A step moves one call, and is charged to that call.
  have moved {a : AcquireId} {acquire : Acquire κ} {phase : Phase} {lookup : Lookup}
      {gain : Charge} (own : s.actor action = some a) (called : s.acquires[a]? = some acquire)
      (at_ : acquire.phase.lookup = lookup) (charges : Charges lookup phase.lookup gain)
      (calls : next.acquires = s.acquires.modify a fun acquire => { acquire with phase })
      (counted : next.counters.charge = s.counters.charge.add gain) :
      ChargeEffect s action next.acquires next.counters.charge := by
    subst at_
    rw [calls, counted]
    exact .moved action a acquire phase gain own called charges
  have free (alien : s.actor action = none) (kept : next.acquires = s.acquires)
      (counted : next.counters.charge = s.counters.charge) :
      ChargeEffect s action next.acquires next.counters.charge := by
    rw [kept, counted]
    exact .free action alien
  cases effect with
  | shared key e =>
    have pushed := shared_acquires s.acquires key (.fulfilled s.handles.length)
    have made : ChargeEffect s (.acquire key : Action κ τ)
        (s.acquires ++ [⟨key, none, .fulfilled s.handles.length⟩])
        (s.counters.charge.add ⟨1, 0, 0⟩) := .made key _ _ .hit
    rw [← pushed] at made
    exact made
  | queued key => exact .made key _ .zero (.onward .undecided)
  -- Steps of handles and of the pool itself are charged to nobody.
  | released h handle next found holding effect =>
    exact free rfl effect.sameCalls.acquires effect.charge_eq
  | releasedKey key e next bound effect =>
    exact free rfl effect.sameCalls.acquires effect.charge_eq
  | drain => exact free rfl (sameCalls_drain core.store).acquires (charge_drain core.store)
  | stop =>
    exact free rfl (sameCalls_drain (s := s.setClosed.stopTimers) core.store).acquires
      (charge_drain (s := s.setClosed.stopTimers) core.store)
  | sweep => exact free rfl (sameCalls_sweep core.store).acquires (charge_sweep core.store)
  -- The lookup goes on, or ends with an entry of the key.
  | validating a acquire after e entry called phase =>
    exact moved rfl called (by rw [phase]; rfl) (.onward .undecided) rfl rfl
  | returned a acquire after e entry called phase =>
    exact moved rfl called (by rw [phase]; rfl) .hit rfl rfl
  | passed a acquire live called phase =>
    exact moved rfl called (by rw [phase]; rfl) .hit rfl rfl
  | unvalidated a acquire live called phase =>
    exact moved rfl called (by rw [phase]; rfl) .refused rfl rfl
  | refuted a acquire live called phase =>
    exact moved rfl called (by rw [phase]; rfl) (.onward .undecided) rfl rfl
  | missed a acquire after next called phase turn absent effect =>
    obtain ⟨phase', gain, charges, counted, calls⟩ := effect.charges
    exact moved rfl called (by rw [phase]; rfl) charges calls counted
  | discarded a acquire live next called phase effect =>
    obtain ⟨phase', gain, charges, counted, calls⟩ := effect.charges
    exact moved rfl called (by rw [phase]; rfl) charges calls counted
  -- The miss of a parked call has been counted.
  | resumed a acquire w waiter next called phase found woken effect =>
    obtain ⟨counted, phase', kind, calls⟩ := effect.charges
    have charges : Charges .creating phase'.lookup .zero := by
      rcases kind with creating | rejected
      · exact creating ▸ .onward .creating
      · exact rejected ▸ .failed
    exact moved rfl called (by rw [phase]; rfl) charges calls counted
  | abandoned a acquire w waiter error called phase =>
    exact moved rfl called (by rw [phase]; rfl) .failed rfl rfl
  | breakerless a acquire answer called phase =>
    exact moved rfl called (by rw [phase]; rfl) .failed rfl rfl
  | creating a acquire answer bank called phase =>
    exact moved rfl called (by rw [phase]; rfl) (.onward .creating) rfl rfl
  | delivered a acquire e called phase =>
    exact moved rfl called (by rw [phase]; rfl) (.onward .served) rfl rfl
  | failed a acquire error called phase =>
    exact moved rfl called (by rw [phase]; rfl) (.onward .rejected) rfl rfl
  -- The end of an exec is charged to the call that awaits it.
  | execRejected x exec found outstanding =>
    obtain ⟨acquire, called, -, phase⟩ := core.execs.awaited x exec found outstanding
    exact moved (by simp [actor, found]) called (by rw [phase]; rfl) .failed rfl rfl
  | execLate x exec resource found outstanding =>
    obtain ⟨acquire, called, -, phase⟩ := core.execs.awaited x exec found outstanding
    exact moved (by simp [actor, found]) called (by rw [phase]; rfl) (.onward .creating) rfl rfl
  | inserted x exec resource found outstanding =>
    obtain ⟨acquire, called, -, phase⟩ := core.execs.awaited x exec found outstanding
    exact moved (by simp [actor, found]) called (by rw [phase]; rfl) .created rfl rfl
  | lateDisposeSettled a acquire called phase =>
    exact moved rfl called (by rw [phase]; rfl) .failed rfl rfl
  | releasedAgain | releasedNone | start | gcKeyState | emitStats | timeout | clock | drained
  | factoryCalled | factorySettled | disposeSettled | breakerChanged => exact free rfl rfl rfl

end State

/-- A call of `acquire` with what it has added to the counters. -/
structure Line where
  phase : Phase
  charge : Charge

namespace Line

/-- Whether the creation of a call that missed is still in progress. -/
def isCreating (line : Line) : Bool := 0 < line.charge.misses ∧ line.phase.lookup = .creating

/-- Whether a call was rejected after it missed. -/
def isRejected (line : Line) : Bool := 0 < line.charge.misses ∧ line.phase.lookup = .rejected

/-- A line adds up: a miss led to a creation, is about to, or was in vain. -/
theorem misses_eq {line : Line} (fits : line.charge.Fits line.phase.lookup) :
    line.charge.misses = line.charge.created + (if line.isCreating then 1 else 0) +
      (if line.isRejected then 1 else 0) := by
  -- Each kind of lookup has charged its call a fixed amount.
  cases lookup : line.phase.lookup with
  | undecided =>
    rw [lookup] at fits
    simp [isCreating, isRejected, lookup, show line.charge = .zero from fits, Charge.zero]
  | creating =>
    rw [lookup] at fits
    simp [isCreating, isRejected, lookup, show line.charge = ⟨0, 1, 0⟩ from fits]
  | served =>
    rw [lookup] at fits
    rcases fits with same | same <;> simp [isCreating, isRejected, lookup, same]
  | rejected =>
    rw [lookup] at fits
    rcases fits with same | same <;>
      simp [isCreating, isRejected, lookup, same, Charge.zero]

/-- The charges of some calls taken together. -/
def total (lines : List Line) : Charge :=
  ⟨(lines.map fun line => line.charge.hits).sum, (lines.map fun line => line.charge.misses).sum,
    (lines.map fun line => line.charge.created).sum⟩

/-- The misses of some calls are what they created, are creating, and failed to create. -/
theorem total_misses_eq {lines : List Line}
    (fits : ∀ line ∈ lines, line.charge.Fits line.phase.lookup) :
    (total lines).misses =
      (total lines).created + lines.countP isCreating + lines.countP isRejected := by
  -- Every line adds up, so all of them do.
  induction lines with
  | nil => rfl
  | cons line rest ih =>
    have first := misses_eq (fits line List.mem_cons_self)
    have others := ih fun other inside => fits other (List.mem_cons_of_mem _ inside)
    simp only [total, List.map_cons, List.sum_cons, List.countP_cons] at others ⊢
    omega

/-- Charging one more call adds its charge to the total. -/
theorem total_push (lines : List Line) (phase : Phase) (gain : Charge) :
    total (lines ++ [⟨phase, gain⟩]) = (total lines).add gain := by
  -- The new line is the last summand.
  simp [total, Charge.add]

/-- Charging a call again adds to the total as much. -/
theorem total_modify {lines : List Line} {line : Line} {a : AcquireId} (phase : Phase)
    (gain : Charge) (found : lines[a]? = some line) :
    total (lines.modify a fun line => ⟨phase, line.charge.add gain⟩) = (total lines).add gain := by
  -- Each counter gains what the line gains.
  have hits := Arena.sum_modify (fun line => (⟨phase, line.charge.add gain⟩ : Line))
    (fun line => line.charge.hits) found
  have misses := Arena.sum_modify (fun line => (⟨phase, line.charge.add gain⟩ : Line))
    (fun line => line.charge.misses) found
  have created := Arena.sum_modify (fun line => (⟨phase, line.charge.add gain⟩ : Line))
    (fun line => line.charge.created) found
  simp only [Charge.add] at hits misses created
  simp only [total, Charge.add, Charge.mk.injEq]
  omega

end Line

/-- A pool with what each call of `acquire` has added to the counters. -/
structure Booked (κ τ : Type) where
  pool : State κ τ
  charges : AcquireId → Charge

namespace Booked

variable [DecidableEq κ] {options : PoolOptions} {s next : Booked κ τ}

/-- A new pool, on which nothing was called. -/
def init (options : PoolOptions) : Booked κ τ := ⟨.init options, fun _ => .zero⟩

/-- Charge a call, if it was one. -/
def post (charges : AcquireId → Charge) (gain : Charge) : Option AcquireId → AcquireId → Charge
  | none => charges
  | some a => Function.update charges a ((charges a).add gain)

/-- Take a step, and charge the call whose step it is with what the counters gain. -/
def step (options : PoolOptions) (s : Booked κ τ) (action : Action κ τ) : Option (Booked κ τ) :=
  (s.pool.step options action).map fun pool =>
    ⟨pool, post s.charges (pool.counters.charge.since s.pool.counters.charge)
      (s.pool.actor action)⟩

/-- The calls so far, each with its charge. -/
def lines (s : Booked κ τ) : List Line :=
  s.pool.acquires.mapIdx fun a acquire => ⟨acquire.phase, s.charges a⟩

/-- The counters are an exact ledger of what the calls of `acquire` came to. -/
structure Balanced (s : Booked κ τ) : Prop where
  /-- Whatever was counted, a call counted it. -/
  hits : s.pool.counters.hits = (s.lines.map fun line => line.charge.hits).sum
  misses : s.pool.counters.misses = (s.lines.map fun line => line.charge.misses).sum
  once : ∀ line ∈ s.lines, line.charge.hits + line.charge.misses ≤ 1
  fulfilled : ∀ line ∈ s.lines, ∀ h, line.phase = .fulfilled h →
    line.charge.hits + line.charge.misses = 1
  balance : s.pool.counters.misses = s.pool.counters.created + s.lines.countP Line.isCreating +
    s.lines.countP Line.isRejected

/-- The counters are the total of the charges, each of which fits what became of the call. -/
structure Posted (s : Booked κ τ) : Prop where
  core : Core s.pool
  total : s.pool.counters.charge = Line.total s.lines
  fits : ∀ line ∈ s.lines, line.charge.Fits line.phase.lookup
  /-- Who has not called yet is charged nothing. -/
  fresh : ∀ a, s.pool.acquires.length ≤ a → s.charges a = .zero

/-- What the counters say is exact when they are the total of charges that fit. -/
theorem Posted.balanced (posted : Posted s) : Balanced s where
  -- The counters are the totals of what the lines were charged.
  hits := congrArg Charge.hits posted.total
  misses := congrArg Charge.misses posted.total
  once := fun line inside => (posted.fits line inside).le_one
  fulfilled := by
    intro line inside h phase
    have fits := posted.fits line inside
    rw [phase] at fits
    exact fits.eq_one
  balance := by
    have total := posted.total
    have misses := congrArg Charge.misses total
    have created := congrArg Charge.created total
    rw [Line.total_misses_eq posted.fits, ← created] at misses
    exact misses

/-- Nothing was counted before the first call. -/
theorem posted_init (options : PoolOptions) : Posted (init options : Booked κ τ) :=
  -- There are no calls, and all counters are zero.
  ⟨State.core_init options, rfl, (fun _ inside => by cases inside), fun _ _ => rfl⟩

omit [DecidableEq κ] in
/-- The line of a call is what the call has come to. -/
theorem lines_getElem? (s : Booked κ τ) (a : AcquireId) :
    s.lines[a]? = s.pool.acquires[a]?.map fun acquire => ⟨acquire.phase, s.charges a⟩ :=
  -- The lines are made from the calls, one by one.
  List.getElem?_mapIdx

omit [DecidableEq κ] in
/-- Charging a call that goes on changes its line and no other. -/
theorem lines_modify (s : Booked κ τ) (a : AcquireId) (phase : Phase) (gain : Charge)
    (moved : next.pool.acquires =
      s.pool.acquires.modify a fun acquire => { acquire with phase })
    (charged : next.charges = post s.charges gain (some a)) :
    next.lines = s.lines.modify a fun line => ⟨phase, line.charge.add gain⟩ := by
  refine List.ext_getElem? fun i => ?_
  rw [lines_getElem?, moved, charged, List.getElem?_modify, List.getElem?_modify, lines_getElem?]
  -- Only the line of the call that moves is charged.
  by_cases same : a = i
  · subst same
    cases s.pool.acquires[a]? <;> simp [post]
  · have other : i ≠ a := Ne.symm same
    cases s.pool.acquires[i]? <;> simp [post, same, other]

omit [DecidableEq κ] in
/-- Charging a call as it is made adds its line. -/
theorem lines_push (s : Booked κ τ) (acquire : Acquire κ) (gain : Charge)
    (fresh : s.charges s.pool.acquires.length = .zero)
    (made : next.pool.acquires = s.pool.acquires ++ [acquire])
    (charged : next.charges = post s.charges gain (some s.pool.acquires.length)) :
    next.lines = s.lines ++ [⟨acquire.phase, gain⟩] := by
  refine List.ext_getElem? fun i => ?_
  have length : s.lines.length = s.pool.acquires.length := List.length_mapIdx
  rw [lines_getElem?, made, charged, Arena.getElem?_push, Arena.getElem?_push, lines_getElem?,
    length]
  -- The new call has a line of its own, after the others.
  by_cases same : i = s.pool.acquires.length
  · simp [post, same, fresh]
  · simp [post, same]

/-- Every step keeps the charges posted. -/
theorem Posted.step {action : Action κ τ} (posted : Posted s)
    (stepped : s.step options action = some next) : Posted next := by
  obtain ⟨pool, taken, rfl⟩ := Option.map_eq_some_iff.mp stepped
  have core := State.core_step posted.core taken
  have effect := (State.step_effect taken).charges posted.core
  generalize calls : pool.acquires = acquires at effect
  generalize counted : pool.counters.charge = charge at effect
  cases effect with
  | free action alien =>
    -- Nothing was counted, and no call has moved.
    have same : Booked.lines ⟨pool, s.charges⟩ = s.lines := by
      rw [Booked.lines, calls]
      rfl
    rw [alien]
    refine ⟨core, ?_, ?_, ?_⟩
    · exact counted.trans (posted.total.trans (congrArg Line.total same.symm))
    · exact same ▸ posted.fits
    · rw [calls]
      exact posted.fresh
  | moved action a acquire phase gain own called charges =>
    have line : s.lines[a]? = some ⟨acquire.phase, s.charges a⟩ := by
      rw [lines_getElem?, called, Option.map_some]
    rw [own, Charge.add_since]
    have charged : lines ⟨pool, post s.charges gain (some a)⟩ =
        s.lines.modify a fun line => ⟨phase, line.charge.add gain⟩ :=
      lines_modify s a phase gain calls rfl
    refine ⟨core, ?_, ?_, ?_⟩
    · rw [charged, Line.total_modify phase gain line, ← posted.total, counted]
    · -- The line that changed still fits, and the others are as they were.
      rw [charged]
      intro other inside
      obtain ⟨i, found⟩ := List.mem_iff_getElem?.mp inside
      rcases Arena.getElem?_modify_cases found with ⟨rfl, old, before, rfl⟩ | ⟨-, before⟩
      · cases line.symm.trans before
        exact charges.fits (posted.fits _ (List.mem_of_getElem? line))
      · exact posted.fits other (List.mem_of_getElem? before)
    · intro i past
      rw [calls, List.length_modify] at past
      have other : i ≠ a := by
        rintro rfl
        rw [List.getElem?_eq_none past] at called
        cases called
      simp [post, other, posted.fresh i past]
  | made key acquire gain charges =>
    rw [show s.pool.actor (.acquire key) = some s.pool.acquires.length from rfl, Charge.add_since]
    have charged : lines ⟨pool, post s.charges gain (some s.pool.acquires.length)⟩ =
        s.lines ++ [⟨acquire.phase, gain⟩] :=
      lines_push s acquire gain (posted.fresh _ (Nat.le_refl _)) calls rfl
    refine ⟨core, ?_, ?_, ?_⟩
    · rw [charged, Line.total_push, ← posted.total, counted]
    · rw [charged]
      intro other inside
      rcases List.mem_append.mp inside with before | new
      · exact posted.fits other before
      · -- The call starts with nothing charged to it.
        rw [List.mem_singleton] at new
        subst new
        have fits : (Charge.zero.add gain).Fits acquire.phase.lookup := charges.fits rfl
        rwa [Charge.zero_add] at fits
    · intro i past
      rw [calls, List.length_append, List.length_singleton] at past
      have other : i ≠ s.pool.acquires.length := by omega
      simp [post, other, posted.fresh i (by omega)]

/-- In every run the hit and miss counters are an exact ledger of the calls of `acquire`. -/
theorem balanced_throughout (options : PoolOptions) (actions : List (Action κ τ)) :
    Runs.Throughout (step options) Balanced (init options) actions :=
  -- Every step keeps the ledger, and the balance is its total.
  (Runs.throughout_of_invariant Posted (fun _ _ _ posted stepped => posted.step stepped)
    (posted_init options) actions).mono fun _ posted => posted.balanced

end Booked

end RefPool
