import RefPool.Lib.Runs
import RefPool.Proofs.Microtasks

/-! The bodies given to a mutex run one at a time, in the order of the calls, and all of them. -/

namespace RefPool

open Sequence

namespace ExclusivePhase

variable {ν ε : Type}

/-- Whether the body has begun. -/
def begun : ExclusivePhase ν ε → Bool
  | .chained _ => false
  | .running | .finished _ | .concluded _ | .released _ | .settled _ => true

/-- Whether the body has ended. -/
def ended : ExclusivePhase ν ε → Bool
  | .chained _ | .running => false
  | .finished _ | .concluded _ | .released _ | .settled _ => true

/-- Whether a call waits for its body, or for `result` to follow the body's promise. -/
def underway : ExclusivePhase ν ε → Bool
  | .running | .finished _ => true
  | .chained _ | .concluded _ | .released _ | .settled _ => false

/-- Whether the call has settled, as its caller is next to learn. -/
def isSettled : ExclusivePhase ν ε → Bool
  | .settled _ => true
  | .chained _ | .running | .finished _ | .concluded _ | .released _ => false

/-- How often a call still has to move until it has settled. -/
def left : ExclusivePhase ν ε → Nat
  | .chained _ => 5
  | .running => 4
  | .finished _ => 3
  | .concluded _ => 2
  | .released _ => 1
  | .settled _ => 0

end ExclusivePhase

namespace KeyState

variable {κ : Type} [DecidableEq κ] (keys : KeyState κ)

/-- `settled` does not read the marks. -/
theorem settled_setPending (pending : OrderedMap κ Nat) (key : κ) (c : CellId) (now : Int) :
    { keys with pending }.settled key c now = { keys.settled key c now with pending } := by
  -- Marks are in a field of their own.
  simp only [settled]
  split
  · rfl
  · split <;> rfl

/-- Unmarking a key touches the marks alone. -/
theorem decPending_eq (key : κ) :
    keys.decPending key = { keys with pending := (keys.decPending key).pending } := by
  -- Whether the number drops to zero or not, only that field is assigned.
  unfold decPending
  split <;> rfl

/-- The collection of cells does not read the marks. -/
theorem gcMutexes_setPending (pending : OrderedMap κ Nat) (cutoff : Int) :
    { keys with pending }.gcMutexes cutoff = { keys.gcMutexes cutoff with pending } := by
  -- The marks are carried along from turn to turn.
  unfold gcMutexes
  dsimp only
  generalize keys.mutexes.items = items
  induction items generalizing keys with
  | nil => rfl
  | cons item rest ih =>
    simp only [List.foldl_cons]
    rw [← ih]
    congr 1
    split
    · rfl
    · split <;> rfl

end KeyState

namespace ExclusiveSystem

variable {κ ν ε : Type} {s next : ExclusiveSystem κ ν ε} {a : AcquireId}
  {move : ExclusivePhase ν ε → ExclusivePhase ν ε} {call : ExclusiveCall κ ν ε}

/-- What the bodies of the calls have been seen to do. -/
structure Logged (s : ExclusiveSystem κ ν ε) : Prop where
  /-- No body begins or ends twice. -/
  once : s.log.Nodup
  began : ∀ a, .began a ∈ s.log ↔ (s.calls[a]?).any (fun call => call.phase.begun) = true
  ended : ∀ a, .ended a ∈ s.log ↔ (s.calls[a]?).any (fun call => call.phase.ended) = true
  paired : ∀ a, .ended a ∈ s.log → Before s.log (.began a) (.ended a)
  /-- A body begins after those of all earlier calls of its key have ended. -/
  inOrder : ∀ (a b : AcquireId) earlier later, a < b → s.calls[a]? = some earlier →
    s.calls[b]? = some later → earlier.key = later.key → .began b ∈ s.log →
    Before s.log (.ended a) (.began b)

/-- How often the calls still have to move until all of them have settled. -/
def remaining (s : ExclusiveSystem κ ν ε) : Nat := (s.calls.map fun call => call.phase.left).sum

/-- A move that stays within a stage is invisible to the mutex. -/
theorem slots_stay (found : s.calls[a]? = some call)
    (same : (move call.phase).stage = call.phase.stage) :
    (s.setPhase a move).calls.map ExclusiveCall.slot = s.calls.map ExclusiveCall.slot :=
  -- The slot of a call records its stage only.
  Arena.map_modify_of_eq ExclusiveCall.slot fun record present => by
    cases found.symm.trans present
    simp [ExclusiveCall.slot, same]

/-- A move to another stage is a change of stage. -/
theorem slots_move (stage : Stage) (found : s.calls[a]? = some call)
    (reached : (move call.phase).stage = stage) :
    (s.setPhase a move).calls.map ExclusiveCall.slot =
      (s.calls.map ExclusiveCall.slot).modify a fun slot => slot.at stage :=
  -- The slot of a call records its stage only.
  Arena.map_modify_commute ExclusiveCall.slot _ fun record present => by
    cases found.symm.trans present
    simp [ExclusiveCall.slot, Slot.at, reached]

/-- A move leaves every call its key. -/
theorem key_of_move {b : AcquireId} {later : ExclusiveCall κ ν ε}
    (calls : next.calls = (s.setPhase a move).calls) (read : next.calls[b]? = some later) :
    ∃ old, s.calls[b]? = some old ∧ old.key = later.key := by
  -- Keys are not assigned by a move.
  rw [calls] at read
  rcases Arena.getElem?_modify_cases read with ⟨-, old, before, rfl⟩ | ⟨-, before⟩
  · exact ⟨old, before, rfl⟩
  · exact ⟨later, before, rfl⟩

/-- The mutex sees a call at the position it was made at. -/
theorem slot_of_found (found : s.calls[a]? = some call) :
    (s.calls.map ExclusiveCall.slot)[a]? = some call.slot := by
  -- A slot is read through the call.
  simp [found]

/-- A move takes from what remains what it takes from its call. -/
theorem remaining_move (move : ExclusivePhase ν ε → ExclusivePhase ν ε)
    (found : s.calls[a]? = some call)
    (calls : next.calls = (s.setPhase a move).calls)
    (less : (move call.phase).left + 1 = call.phase.left) : next.remaining + 1 = s.remaining := by
  -- One summand changes, by one.
  have moved := Arena.sum_modify
    (fun call : ExclusiveCall κ ν ε => { call with phase := move call.phase })
    (fun call => call.phase.left) found
  simp only [remaining, calls, setPhase]
  dsimp only at moved
  omega

/-! ### The steps -/

variable [DecidableEq κ] {mutexGcMs : Option Int}

/-- What every step keeps: the queue, the cells and the log agree with the calls. -/
structure Orderly (s : ExclusiveSystem κ ν ε) : Prop where
  queued : s.Queued
  chained : ∃ pending, Chained { s.toKeyState with pending } (s.calls.map ExclusiveCall.slot)
  logged : s.Logged

/-- The outcomes of a step, one constructor for each way it can go. -/
inductive Effect (s : ExclusiveSystem κ ν ε) :
    ExclusiveAction κ ν ε → ExclusiveSystem κ ν ε → Prop
  | called (key : κ) : Effect s (.call key) (s.runExclusive key)
  /-- A body begins: the call it was chained behind has settled. -/
  | started (a : AcquireId) (call : ExclusiveCall κ ν ε) (after : Option AcquireId)
      (rest : List Microtask) (first : s.microtasks = .start a :: rest)
      (found : s.calls[a]? = some call) (phase : call.phase = .chained after)
      (turn : ∀ p, after = some p → ∃ before result, s.calls[p]? = some before ∧
        before.phase = .settled result) :
      Effect s .microtask
        { s.setPhase a (fun _ => .running) with
          microtasks := rest
          log := s.log ++ [.began a] }
  /-- The tail of a call resolves. -/
  | released (a : AcquireId) (call : ExclusiveCall κ ν ε) (result : Except ε ν)
      (rest : List Microtask) (first : s.microtasks = .release a :: rest)
      (found : s.calls[a]? = some call) (phase : call.phase = .concluded result) :
      Effect s .microtask
        { s.setPhase a .release with microtasks := rest ++ (s.behind a).map .start }
  /-- `settled` runs after the tail has resolved. -/
  | settled (a : AcquireId) (call : ExclusiveCall κ ν ε) (result : Except ε ν) (c : CellId)
      (rest : List Microtask) (first : s.microtasks = .settle a :: rest)
      (found : s.calls[a]? = some call) (phase : call.phase = .released result)
      (onCell : call.cell = some c) :
      Effect s .microtask
        { s.setPhase a .settle with
          toKeyState := s.toKeyState.settled call.key c s.now
          microtasks := rest }
  /-- A body ends. -/
  | finished (a : AcquireId) (call : ExclusiveCall κ ν ε) (result : Except ε ν)
      (found : s.calls[a]? = some call) (phase : call.phase = .running) :
      Effect s (.finish a result)
        { s.setPhase a (fun _ => .finished result) with log := s.log ++ [.ended a] }
  | followed (a : AcquireId) (call : ExclusiveCall κ ν ε) (result : Except ε ν)
      (found : s.calls[a]? = some call) (phase : call.phase = .finished result) :
      Effect s (.follow a)
        { s.setPhase a (fun _ => .concluded result) with
          microtasks := s.microtasks ++ [.release a, .settle a] }
  /-- Cells are collected, where the option is set. -/
  | collected (keys : KeyState κ)
      (cause : keys = s.toKeyState ∨ ∃ cutoff, keys = s.toKeyState.gcMutexes cutoff) :
      Effect s .gcKeyState { s with toKeyState := keys }
  | clock (now : Int) : Effect s (.clock now) { s with now }

/-- Running the first reaction has one of its outcomes. -/
theorem perform_effect {job : Microtask} {rest : List Microtask} (orderly : Orderly s)
    (first : s.microtasks = job :: rest) :
    Effect s .microtask ({ s with microtasks := rest }.perform job) := by
  have once := first ▸ orderly.queued.once
  obtain ⟨call, found, due⟩ := orderly.queued.exists_head first
  cases job with
  | start a =>
    cases phase : call.phase with
    | chained after =>
      refine .started a call after rest first found phase ?_
      rintro p rfl
      have ready : s.tailResolved (some p) = true := by
        simpa [ExclusivePhase.owes, phase] using due
      obtain ⟨before, present, resolved⟩ := (Option.any_eq_true _ _).mp ready
      cases now : before.phase with
      | settled result => exact ⟨before, result, present, now⟩
      | released result =>
        -- The `settled` of the call ahead would still be queued, and ahead of the first.
        have queued : .settle p ∈ s.microtasks := by
          rw [orderly.queued.due, due_of_found present, now]
          rfl
        have ahead := orderly.queued.settles a call p found phase (by simp [first]) queued
        exact absurd rfl ((first ▸ ahead).ne_head once)
      | _ => simp [now, ExclusivePhase.tailResolved] at resolved
    | _ => simp [ExclusivePhase.owes, phase] at due
  | release a =>
    cases phase : call.phase with
    | concluded result => exact .released a call result rest first found phase
    | _ => simp [ExclusivePhase.owes, phase] at due
  | settle a =>
    have found : s.calls[a]? = some call := found
    cases phase : call.phase with
    | concluded result =>
      -- The tail's reaction would still be queued, and ahead of the first.
      have queued : .release a ∈ s.microtasks := by
        rw [orderly.queued.due, @due_of_found _ _ _ s call (.release a) found, phase]
        rfl
      exact absurd rfl ((first ▸ orderly.queued.releases a queued).ne_head once)
    | released result =>
      obtain ⟨pending, chained⟩ := orderly.chained
      obtain ⟨c, -, -, -, onCell, -⟩ := chained.tail a call.slot (slot_of_found found)
        (by simp [Slot.isOpen, ExclusiveCall.slot, phase, ExclusivePhase.stage])
      have onCell : call.cell = some c := onCell
      have same : ({ s with microtasks := rest } : ExclusiveSystem κ ν ε).perform (.settle a) =
          { s.setPhase a .settle with
            toKeyState := s.toKeyState.settled call.key c s.now
            microtasks := rest } := by
        simp only [perform, found, onCell]
        rfl
      rw [same]
      exact .settled a call result c rest first found phase onCell
    | _ => simp [ExclusivePhase.owes, phase] at due

/-- Every step has one of these outcomes. -/
theorem step_effect {action : ExclusiveAction κ ν ε} (orderly : Orderly s)
    (stepped : s.step mutexGcMs action = some next) : Effect s action next := by
  cases action with
  | call key =>
    cases stepped
    exact .called key
  | microtask =>
    -- The oldest job of the queue runs, if there is one.
    cases first : s.microtasks with
    | nil => simp [step, first] at stepped
    | cons job rest =>
      simp only [step, first, Option.some.injEq] at stepped
      exact stepped ▸ perform_effect orderly first
  | finish a result =>
    obtain ⟨call, found, moved⟩ := Option.bind_eq_some_iff.mp stepped
    split at moved
    · rename_i phase
      cases moved
      exact .finished a call result found phase
    · cases moved
  | follow a =>
    obtain ⟨call, found, moved⟩ := Option.bind_eq_some_iff.mp stepped
    split at moved
    · rename_i result phase
      cases moved
      exact .followed a call result found phase
    · cases moved
  | gcKeyState =>
    cases stepped
    split
    · exact .collected s.toKeyState (.inl rfl)
    · split
      · exact .collected s.toKeyState (.inl rfl)
      · exact .collected _ (.inr ⟨_, rfl⟩)
  | clock now =>
    cases stepped
    exact .clock now

/-- Every step keeps the queue. -/
theorem Effect.queued {action : ExclusiveAction κ ν ε} (orderly : Orderly s)
    (effect : Effect s action next) : Queued next := by
  have queued := orderly.queued
  cases effect with
  | called key => exact queued.push rfl rfl
  | started a call after rest first found phase =>
    refine queued.run (fun _ => .running) first found rfl rfl (fun other own => ?_) ?_ ?_
    · cases other <;> simp_all [ExclusivePhase.owes, Microtask.call]
    · simp [phase, ExclusivePhase.tailResolved]
    · simp
  | released a call result rest first found phase =>
    exact queued.release first found phase rfl rfl
  | settled a call result c rest first found phase =>
    refine queued.run .settle first found rfl rfl (fun other own => ?_) ?_ ?_
    · cases other <;> simp_all [ExclusivePhase.owes, ExclusivePhase.settle, Microtask.call]
    · simp [phase, ExclusivePhase.settle, ExclusivePhase.tailResolved]
    · simp [phase, ExclusivePhase.settle]
  | finished a call result found phase =>
    refine queued.of_no_jobs (fun _ => .finished result) found rfl rfl (fun job => ?_)
      (fun job => ?_) ?_ ?_
    · cases job <;> simp [phase, ExclusivePhase.owes]
    · cases job <;> simp [ExclusivePhase.owes]
    · simp [phase, ExclusivePhase.tailResolved]
    · simp
  | followed a call result found phase => exact queued.follow found phase rfl rfl
  -- Neither cells nor the clock are read by the queue.
  | collected | clock => exact ⟨queued.once, queued.due, queued.releases, queued.settles⟩

/-- Every step keeps the cells in agreement with the calls. -/
theorem Effect.chained {action : ExclusiveAction κ ν ε}
    (chained : ∃ pending, Chained { s.toKeyState with pending }
      (s.calls.map ExclusiveCall.slot)) (effect : Effect s action next) :
    ∃ pending, Chained { next.toKeyState with pending } (next.calls.map ExclusiveCall.slot) := by
  obtain ⟨pending, chained⟩ := chained
  cases effect with
  | called key =>
    -- Here nobody sets a mark, but the chain does not read them.
    have joined := chained.enqueue key s.now
    have marks : ({ s.toKeyState with pending }.incPending key).runExclusive key s.calls.length
        s.now = { s.toKeyState.runExclusive key s.calls.length s.now with
          pending := ({ s.toKeyState with pending }.incPending key).pending } :=
      s.toKeyState.runExclusive_setPending _ _ _ _
    have reads : ({ s.toKeyState with pending }.incPending key).tailOf key =
        s.toKeyState.tailOf key := rfl
    rw [List.length_map, marks, reads] at joined
    refine ⟨({ s.toKeyState with pending }.incPending key).pending, ?_⟩
    simpa [runExclusive, ExclusiveCall.slot, ExclusivePhase.stage] using joined
  | started a call after rest first found phase turn =>
    refine ⟨pending, ?_⟩
    show Chained _ ((s.setPhase a fun _ => .running).calls.map ExclusiveCall.slot)
    rw [slots_move .running found rfl]
    refine chained.start (slot_of_found found) (congrArg ExclusivePhase.stage phase)
      fun p behind => ?_
    obtain ⟨before, result, present, settled⟩ := turn p behind
    exact ⟨before.slot, slot_of_found present, by
      simp [Slot.isOpen, ExclusiveCall.slot, settled, ExclusivePhase.stage]⟩
  | settled a call result c rest first found phase onCell =>
    have left := chained.settle (slot_of_found found) (congrArg ExclusivePhase.stage phase)
      onCell s.now
    rw [KeyState.settled_setPending, KeyState.decPending_eq] at left
    refine ⟨(KeyState.decPending { s.toKeyState.settled call.key c s.now with pending }
      call.key).pending, ?_⟩
    show Chained _ ((s.setPhase a .settle).calls.map ExclusiveCall.slot)
    rw [slots_move .settled found (by rw [phase]; rfl)]
    exact left
  | released a call result rest first found phase =>
    refine ⟨pending, ?_⟩
    show Chained _ ((s.setPhase a .release).calls.map ExclusiveCall.slot)
    rwa [slots_stay found (by rw [phase]; rfl)]
  | finished a call result found phase =>
    refine ⟨pending, ?_⟩
    show Chained _ ((s.setPhase a fun _ => .finished result).calls.map ExclusiveCall.slot)
    rwa [slots_stay found (by rw [phase]; rfl)]
  | followed a call result found phase =>
    refine ⟨pending, ?_⟩
    show Chained _ ((s.setPhase a fun _ => .concluded result).calls.map ExclusiveCall.slot)
    rwa [slots_stay found (by rw [phase]; rfl)]
  | collected keys cause =>
    refine ⟨pending, ?_⟩
    rcases cause with rfl | ⟨cutoff, rfl⟩
    · exact chained
    -- Every cell is in use, so none is collected.
    · have kept := chained.gcMutexes_eq cutoff
      rw [KeyState.gcMutexes_setPending] at kept
      show Chained { s.toKeyState.gcMutexes cutoff with pending } _
      rwa [kept]
  | clock => exact ⟨pending, chained⟩

omit [DecidableEq κ] in
/-- A move within the same part of a body leaves the log as it is. -/
theorem Logged.of_same_log (logged : Logged s) (move : ExclusivePhase ν ε → ExclusivePhase ν ε)
    (found : s.calls[a]? = some call)
    (calls : next.calls = (s.setPhase a move).calls) (log : next.log = s.log)
    (begun : (move call.phase).begun = call.phase.begun)
    (ended : (move call.phase).ended = call.phase.ended) : Logged next := by
  -- What the log is compared with is a property of the phases, and this one stays.
  have same (f : ExclusivePhase ν ε → Bool) (kept : f (move call.phase) = f call.phase)
      (b : AcquireId) : (next.calls[b]?).any (fun call => f call.phase) =
        (s.calls[b]?).any fun call => f call.phase := by
    rw [calls]
    refine Arena.any_getElem?_modify (fun call : ExclusiveCall κ ν ε => f call.phase)
      (fun record present => ?_) b
    cases found.symm.trans present
    exact kept
  constructor
  case once => exact log ▸ logged.once
  case began =>
    intro b
    rw [log, same _ begun, logged.began]
  case ended =>
    intro b
    rw [log, same _ ended, logged.ended]
  case paired => exact log ▸ logged.paired
  case inOrder =>
    intro x y earlier later less readX readY own
    obtain ⟨old, before, sameX⟩ := key_of_move calls readX
    obtain ⟨old', before', sameY⟩ := key_of_move calls readY
    rw [log]
    exact logged.inOrder x y old old' less before before' (sameX.trans (own.trans sameY.symm))

omit [DecidableEq κ] in
/-- A new call has done nothing. -/
theorem Logged.push {fresh : ExclusiveCall κ ν ε} {after : Option AcquireId} (logged : Logged s)
    (phase : fresh.phase = .chained after) (calls : next.calls = s.calls ++ [fresh])
    (log : next.log = s.log) : Logged next := by
  have same (f : ExclusivePhase ν ε → Bool) (idle : f fresh.phase = false) (b : AcquireId) :
      (next.calls[b]?).any (fun call => f call.phase) =
        (s.calls[b]?).any fun call => f call.phase := by
    rw [calls, Arena.getElem?_push]
    split
    · rename_i new
      simp [new, idle]
    · rfl
  constructor
  case once => exact log ▸ logged.once
  case began =>
    intro b
    rw [log, same _ (by rw [phase]; rfl), logged.began]
  case ended =>
    intro b
    rw [log, same _ (by rw [phase]; rfl), logged.ended]
  case paired => exact log ▸ logged.paired
  case inOrder =>
    intro x y earlier later less readX readY own began
    rw [log] at began ⊢
    -- A call whose body has begun is an older one.
    have older : y < s.calls.length := by
      obtain ⟨call, found, -⟩ := (Option.any_eq_true _ _).mp ((logged.began y).mp began)
      exact (List.getElem?_eq_some_iff.mp found).1
    rw [calls, Arena.getElem?_push, if_neg (Nat.ne_of_lt (Nat.lt_trans less older))] at readX
    rw [calls, Arena.getElem?_push, if_neg (Nat.ne_of_lt older)] at readY
    exact logged.inOrder x y earlier later less readX readY own began

/-- A body begins once those of all earlier calls of its key have ended. -/
theorem Logged.begin {after : Option AcquireId} {keys : KeyState κ} (logged : Logged s)
    (found : s.calls[a]? = some call) (phase : call.phase = .chained after)
    (calls : next.calls = (s.setPhase a fun _ => .running).calls)
    (log : next.log = s.log ++ [.began a])
    (chained : Chained keys (next.calls.map ExclusiveCall.slot)) : Logged next := by
  have moved : next.calls[a]? = some { call with phase := .running } := by
    rw [calls]
    exact Arena.getElem?_modify_self _ found
  have other {b : AcquireId} (differ : b ≠ a) : next.calls[b]? = s.calls[b]? := by
    rw [calls]
    exact Arena.getElem?_modify_other _ _ (Ne.symm differ)
  have unbegun : .began a ∉ s.log := by simp [logged.began, found, phase, ExclusivePhase.begun]
  constructor
  case once =>
    rw [log, List.nodup_append]
    exact ⟨logged.once, by simp, fun event inside other new same =>
      unbegun (List.mem_singleton.mp new ▸ same ▸ inside)⟩
  case began =>
    intro b
    rw [log, List.mem_append, logged.began, List.mem_singleton, BodyEvent.began.injEq]
    by_cases here : b = a
    · subst here
      simp [moved, ExclusivePhase.begun]
    · simp [other here, here]
  case ended =>
    intro b
    rw [log, List.mem_append, logged.ended, List.mem_singleton]
    by_cases here : b = a
    · subst here
      simp [moved, found, phase, ExclusivePhase.ended]
    · simp [other here]
  case paired =>
    intro b inside
    rw [log, List.mem_append, List.mem_singleton] at inside
    rw [log]
    exact (logged.paired b (inside.resolve_right (by simp))).append _
  case inOrder =>
    intro x y earlier later less readX readY own began
    rw [log] at began ⊢
    rcases List.mem_append.mp began with before | new
    · -- The order of the bodies that began earlier is as it was.
      obtain ⟨old, present, sameX⟩ := key_of_move calls readX
      obtain ⟨old', present', sameY⟩ := key_of_move calls readY
      exact (logged.inOrder x y old old' less present present'
        (sameX.trans (own.trans sameY.symm)) before).append _
    · obtain rfl : y = a := by simpa using new
      rw [other (Nat.ne_of_lt less)] at readX
      cases moved.symm.trans readY
      -- No earlier call of the key is still open, so the body of each has ended.
      have closed : earlier.slot.isOpen = false := by
        by_contra active
        exact chained.no_older (slot_of_found moved) rfl less
          (slot_of_found ((other (Nat.ne_of_lt less)).trans readX)) (by simpa using active) own
      refine .of_mem_append ((logged.ended x).mpr ?_) new
      cases reached : earlier.phase <;>
        simp_all [Slot.isOpen, ExclusiveCall.slot, ExclusivePhase.stage, ExclusivePhase.ended]

omit [DecidableEq κ] in
/-- A body ends after it has begun. -/
theorem Logged.finish {result : Except ε ν} (logged : Logged s) (found : s.calls[a]? = some call)
    (phase : call.phase = .running)
    (calls : next.calls = (s.setPhase a fun _ => .finished result).calls)
    (log : next.log = s.log ++ [.ended a]) : Logged next := by
  have moved : next.calls[a]? = some { call with phase := .finished result } := by
    rw [calls]
    exact Arena.getElem?_modify_self _ found
  have other {b : AcquireId} (differ : b ≠ a) : next.calls[b]? = s.calls[b]? := by
    rw [calls]
    exact Arena.getElem?_modify_other _ _ (Ne.symm differ)
  have unended : .ended a ∉ s.log := by simp [logged.ended, found, phase, ExclusivePhase.ended]
  -- The log says for the first time that this body has ended.
  constructor
  case once =>
    rw [log, List.nodup_append]
    exact ⟨logged.once, by simp, fun event inside other new same =>
      unended (List.mem_singleton.mp new ▸ same ▸ inside)⟩
  case began =>
    intro b
    rw [log, List.mem_append, logged.began, List.mem_singleton]
    by_cases here : b = a
    · subst here
      simp [moved, found, phase, ExclusivePhase.begun]
    · simp [other here]
  case ended =>
    intro b
    rw [log, List.mem_append, logged.ended, List.mem_singleton, BodyEvent.ended.injEq]
    by_cases here : b = a
    · subst here
      simp [moved, ExclusivePhase.ended]
    · simp [other here, here]
  -- A body that ends has begun, so its end stands behind its beginning.
  case paired =>
    intro b inside
    rw [log] at inside ⊢
    rcases List.mem_append.mp inside with before | new
    · exact (logged.paired b before).append _
    · obtain rfl : b = a := by simpa using new
      refine .of_mem_append ((logged.began b).mpr ?_) new
      simp [found, phase, ExclusivePhase.begun]
  -- No body begins here.
  case inOrder =>
    intro x y earlier later less readX readY own began
    rw [log, List.mem_append, List.mem_singleton] at began
    obtain ⟨old, present, sameX⟩ := key_of_move calls readX
    obtain ⟨old', present', sameY⟩ := key_of_move calls readY
    rw [log]
    exact (logged.inOrder x y old old' less present present' (sameX.trans (own.trans sameY.symm))
      (began.resolve_right (by simp))).append _

/-- Every step keeps the log. -/
theorem Effect.logged {action : ExclusiveAction κ ν ε} (orderly : Orderly s)
    (effect : Effect s action next) : Logged next := by
  have logged := orderly.logged
  obtain ⟨pending, chained⟩ := effect.chained orderly.chained
  -- Only the start and the end of a body are logged.
  cases effect with
  | called key => exact logged.push rfl rfl rfl
  | started a call after rest first found phase => exact logged.begin found phase rfl rfl chained
  | released a call result rest first found phase =>
    exact logged.of_same_log .release found rfl rfl (by rw [phase]; rfl) (by rw [phase]; rfl)
  | settled a call result c rest first found phase =>
    exact logged.of_same_log .settle found rfl rfl (by rw [phase]; rfl) (by rw [phase]; rfl)
  | finished a call result found phase => exact logged.finish found phase rfl rfl
  | followed a call result found phase =>
    exact logged.of_same_log (fun _ => .concluded result) found rfl rfl (by rw [phase]; rfl)
      (by rw [phase]; rfl)
  | collected | clock =>
    exact ⟨logged.once, logged.began, logged.ended, logged.paired, logged.inOrder⟩

/-- Every step keeps the queue, the cells and the log. -/
theorem orderly_step {action : ExclusiveAction κ ν ε} (orderly : Orderly s)
    (stepped : s.step mutexGcMs action = some next) : Orderly next :=
  -- The parts of the invariant are kept one by one.
  have effect := step_effect orderly stepped
  ⟨effect.queued orderly, effect.chained orderly.chained, effect.logged orderly⟩

/-- A new pool has neither cells nor calls. -/
theorem orderly_init : Orderly (init : ExclusiveSystem κ ν ε) where
  -- The queue, the cells and the log are all empty.
  queued := by constructor <;> simp [init, Due]
  chained := ⟨_, .empty⟩
  logged := by constructor <;> simp [init]

/-! ### The mutex -/

/-- What a caller of `runExclusive` can rely on. -/
structure Exclusive (mutexGcMs : Option Int) (s : ExclusiveSystem κ ν ε) : Prop where
  /-- The bodies of a key run once each, one at a time, in the order of the calls. -/
  bodies : s.Logged
  /-- Whatever moves a call brings it one move closer to its end. -/
  moves : ∀ action next, s.step mutexGcMs action = some next → action.isMove = true →
    next.remaining + 1 = s.remaining
  /-- Once no body is on its way and no reaction is queued, every call has settled. -/
  completes : s.microtasks = [] → (∀ call ∈ s.calls, call.phase.underway = false) →
    ∀ call ∈ s.calls, call.phase.isSettled = true
  /-- A step that takes the cell of a key leaves no call on that cell queued or running. -/
  removed : ∀ action next key c, s.step mutexGcMs action = some next →
    s.mutexes.get? key = some c → next.mutexes.get? key ≠ some c →
    ∀ call ∈ next.calls, call.cell = some c → call.phase.isSettled = true
  /-- A key whose calls have all settled has no cell. -/
  free : ∀ key, (∀ call ∈ s.calls, call.key = key → call.phase.isSettled = true) →
    s.mutexes.get? key = none

omit [DecidableEq κ] in
/-- A call is open until it has settled. -/
theorem isOpen_iff : call.slot.isOpen = true ↔ call.phase.isSettled = false := by
  -- Only the last phase is a settled one.
  cases phase : call.phase <;>
    simp [Slot.isOpen, ExclusiveCall.slot, phase, ExclusivePhase.stage, ExclusivePhase.isSettled]

/-- Every move takes one from what remains. -/
theorem Effect.moves {action : ExclusiveAction κ ν ε} (effect : Effect s action next)
    (move : action.isMove = true) : next.remaining + 1 = s.remaining := by
  -- Every move takes its call one stage further.
  cases effect with
  | started a call after rest first found phase =>
    exact remaining_move (fun _ => .running) found rfl (by rw [phase]; rfl)
  | released a call result rest first found phase =>
    exact remaining_move .release found rfl (by rw [phase]; rfl)
  | settled a call result c rest first found phase =>
    exact remaining_move .settle found rfl (by rw [phase]; rfl)
  | finished a call result found phase =>
    exact remaining_move (fun _ => .finished result) found rfl (by rw [phase]; rfl)
  | followed a call result found phase =>
    exact remaining_move (fun _ => .concluded result) found rfl (by rw [phase]; rfl)
  | called | collected | clock => cases move

/-- At rest no call is left: the first of its key to be open would have something to wait for. -/
theorem Orderly.completes (orderly : Orderly s) (empty : s.microtasks = [])
    (idle : ∀ call ∈ s.calls, call.phase.underway = false) :
    ∀ call ∈ s.calls, call.phase.isSettled = true := by
  have undue (job : Microtask) : ¬s.Due job := by simp [← orderly.queued.due, empty]
  intro call called
  by_contra active
  obtain ⟨t, found⟩ := List.mem_iff_getElem?.mp called
  obtain ⟨pending, chained⟩ := orderly.chained
  obtain ⟨i, slot, present, opened, -, ready⟩ :=
    chained.exists_first (slot_of_found found) (isOpen_iff.mpr (by simpa using active))
  obtain ⟨first, read, rfl⟩ : ∃ first, s.calls[i]? = some first ∧ first.slot = slot := by
    simpa using present
  have waits := idle first (List.mem_of_getElem? read)
  cases phase : first.phase with
  | chained after =>
    -- Its turn has come, so it would be queued to start.
    refine undue (.start i) ((due_of_found read).mpr ?_)
    simp only [ExclusivePhase.owes, phase]
    cases after with
    | none => rfl
    | some p =>
      obtain ⟨before, behind, closed⟩ := ready p (by simp [ExclusiveCall.slot, phase,
        ExclusivePhase.stage])
      obtain ⟨prior, present, rfl⟩ : ∃ prior, s.calls[p]? = some prior ∧ prior.slot = before := by
        simpa using behind
      cases reached : prior.phase <;>
        simp_all [tailResolved, Slot.isOpen, ExclusiveCall.slot, ExclusivePhase.stage,
          ExclusivePhase.tailResolved]
  | concluded | released =>
    -- Its `settled` would be queued.
    exact undue (.settle i) ((due_of_found read).mpr (by rw [phase]; rfl))
  | running | finished => simp [phase, ExclusivePhase.underway] at waits
  | settled => simp [isOpen_iff, phase, ExclusivePhase.isSettled] at opened

/-- A call that is open after a step was so before, on the same cell, or is new. -/
theorem Effect.open_before_or_called {action : ExclusiveAction κ ν ε} {b : AcquireId}
    (effect : Effect s action next) (read : next.calls[b]? = some call)
    (opened : call.phase.isSettled = false) :
    (∃ old, s.calls[b]? = some old ∧ old.key = call.key ∧ old.cell = call.cell ∧
      old.phase.isSettled = false) ∨
    ∃ key, next = s.runExclusive key ∧ call.key = key ∧ call.cell = next.mutexes.get? key := by
  have same {a : AcquireId} (move : ExclusivePhase ν ε → ExclusivePhase ν ε)
      (calls : next.calls = (s.setPhase a move).calls)
      (less : ∀ call, s.calls[a]? = some call → call.phase.isSettled = false) :
      ∃ old, s.calls[b]? = some old ∧ old.key = call.key ∧ old.cell = call.cell ∧
        old.phase.isSettled = false := by
    rw [calls] at read
    rcases Arena.getElem?_modify_cases read with ⟨rfl, old, before, rfl⟩ | ⟨-, before⟩
    · exact ⟨old, before, rfl, rfl, less old before⟩
    · exact ⟨call, before, rfl, rfl, opened⟩
  -- No step opens a call but the one that it adds.
  cases effect with
  | called key =>
    rcases Arena.getElem?_push_cases read with ⟨-, rfl⟩ | before
    · exact .inr ⟨key, rfl, rfl, rfl⟩
    · exact .inl ⟨call, before, rfl, rfl, opened⟩
  -- The calls that move on were open before they moved.
  | started a old after rest first found phase =>
    exact .inl (same (fun _ => .running) rfl fun record present => by
      cases found.symm.trans present
      rw [phase]
      rfl)
  | released a old result rest first found phase =>
    exact .inl (same .release rfl fun record present => by
      cases found.symm.trans present
      rw [phase]
      rfl)
  | settled a old result c rest first found phase =>
    exact .inl (same .settle rfl fun record present => by
      cases found.symm.trans present
      rw [phase]
      rfl)
  | finished a old result found phase =>
    exact .inl (same (fun _ => .finished result) rfl fun record present => by
      cases found.symm.trans present
      rw [phase]
      rfl)
  | followed a old result found phase =>
    exact .inl (same (fun _ => .concluded result) rfl fun record present => by
      cases found.symm.trans present
      rw [phase]
      rfl)
  | collected | clock => exact .inl ⟨call, read, rfl, rfl, opened⟩

/-- The cell of an open call is the one its key still has. -/
theorem Orderly.onCell {c : CellId} (orderly : Orderly s) (found : s.calls[a]? = some call)
    (opened : call.phase.isSettled = false) (chained : call.cell = some c) :
    s.mutexes.get? call.key = some c := by
  -- The invariant of the mutex gives the cell that its key has.
  obtain ⟨pending, agreed⟩ := orderly.chained
  obtain ⟨d, -, -, -, on, mutex, -⟩ :=
    agreed.tail a call.slot (slot_of_found found) (isOpen_iff.mpr opened)
  cases chained.symm.trans on
  exact mutex

/-- A cell goes with the last call on it. -/
theorem Orderly.removed {action : ExclusiveAction κ ν ε} {key : κ} {c : CellId}
    (orderly : Orderly s) (stepped : s.step mutexGcMs action = some next)
    (bound : s.mutexes.get? key = some c) (gone : next.mutexes.get? key ≠ some c) :
    ∀ call ∈ next.calls, call.cell = some c → call.phase.isSettled = true := by
  intro call called chained
  by_contra active
  have opened : call.phase.isSettled = false := by simpa using active
  obtain ⟨b, read⟩ := List.mem_iff_getElem?.mp called
  obtain ⟨pending, agreed⟩ := orderly.chained
  -- The call's own key has the cell after the step, and it is another key than the one asked for.
  have still := (orderly_step orderly stepped).onCell read opened chained
  have differ : call.key ≠ key := fun same => gone (same ▸ still)
  rcases (step_effect orderly stepped).open_before_or_called read opened with
    ⟨old, before, sameKey, sameCell, pending⟩ | ⟨other, rfl, rfl, -⟩
  · have mutex := orderly.onCell before pending (sameCell.trans chained)
    exact differ (sameKey ▸ agreed.unshared _ key c mutex bound)
  -- A new call shares a cell with the older calls of its key, or is given a fresh one.
  · obtain ⟨d, -, mutex, -, -, -, -, -, mine, -⟩ :=
      agreed.chain_cell call.key s.calls.length s.now
    rw [KeyState.runExclusive_setPending] at mutex
    cases still.symm.trans mutex
    exact differ (mine key bound).symm

/-- A key whose calls have all settled has no cell. -/
theorem Orderly.mutex_eq_none (orderly : Orderly s) (key : κ)
    (settled : ∀ call ∈ s.calls, call.key = key → call.phase.isSettled = true) :
    s.mutexes.get? key = none := by
  -- A key with a cell has an open call on it.
  obtain ⟨pending, chained⟩ := orderly.chained
  refine chained.unbound fun t slot found own => ?_
  obtain ⟨call, present, rfl⟩ : ∃ call, s.calls[t]? = some call ∧ call.slot = slot := by
    simpa using found
  have ended := settled call (List.mem_of_getElem? present) own
  by_contra active
  simp [isOpen_iff, ended] at active

/-- In every run the mutexes keep the bodies of a key apart, and forget the keys nobody uses. -/
theorem exclusive_throughout (mutexGcMs : Option Int) (actions : List (ExclusiveAction κ ν ε)) :
    Runs.Throughout (step mutexGcMs) (Exclusive mutexGcMs) init actions :=
  -- Each clause is a property of every orderly state.
  (Runs.throughout_of_invariant Orderly (fun _ _ _ => orderly_step) orderly_init actions).mono
    fun _ orderly =>
      { bodies := orderly.logged
        moves := fun _ _ stepped => (step_effect orderly stepped).moves
        completes := orderly.completes
        removed := fun _ _ _ _ => orderly.removed
        free := orderly.mutex_eq_none }

/-- The body that rejects makes way for the next, and the cell goes with the last of them. -/
example :
    let actions : List (ExclusiveAction Nat Nat Unit) :=
      [.call 7, .call 7, .microtask, .finish 0 (.error ()), .follow 0, .microtask, .gcKeyState,
        .microtask, .microtask, .finish 1 (.ok 70), .follow 1, .microtask, .microtask]
    (Runs.run (step (some 5)) init actions).map (fun s => (s.log, s.mutexes.items)) =
      some ([.began 0, .ended 0, .began 1, .ended 1], []) := by
  decide

end ExclusiveSystem

end RefPool
