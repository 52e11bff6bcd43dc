import RefPool.Lib.Sequence
import RefPool.Model.Exclusive
import RefPool.Proofs.Mutex

/-! The reactions queued are those due, and a call's `settled` runs before the next body begins. -/

namespace RefPool

open Sequence

namespace ExclusivePhase

variable {ν ε : Type}

/-- What the mutex knows of a phase. -/
def stage : ExclusivePhase ν ε → Stage
  | .chained after => .waiting after
  | .running | .finished _ | .concluded _ | .released _ => .running
  | .settled _ => .settled

/-- Whether a reaction of a call is queued, as far as its phase can tell. -/
def owes (phase : ExclusivePhase ν ε) (resolved : Option AcquireId → Bool) : Microtask → Bool
  | .start _ => match phase with
    | .chained after => resolved after
    | _ => false
  | .release _ => match phase with
    | .concluded _ => true
    | _ => false
  | .settle _ => match phase with
    | .concluded _ | .released _ => true
    | _ => false

end ExclusivePhase

/-- The mutex's view of a call. -/
def ExclusiveCall.slot {κ ν ε : Type} (call : ExclusiveCall κ ν ε) : Slot κ :=
  ⟨call.key, call.cell, call.phase.stage⟩

/-- The call that a reaction is of. -/
def Microtask.call : Microtask → AcquireId
  | .start a | .release a | .settle a => a

namespace ExclusiveSystem

variable {κ ν ε : Type} {s next : ExclusiveSystem κ ν ε} {a : AcquireId}
  {move : ExclusivePhase ν ε → ExclusivePhase ν ε} {call : ExclusiveCall κ ν ε}

/-- A reaction is due: the phase of its call asks for it. -/
def Due (s : ExclusiveSystem κ ν ε) (job : Microtask) : Prop :=
  (s.calls[job.call]?).any (fun call => call.phase.owes s.tailResolved job) = true

/-- The queue holds what is due, once, and what was queued for the sake of another behind it. -/
structure Queued (s : ExclusiveSystem κ ν ε) : Prop where
  once : s.microtasks.Nodup
  due : ∀ job, job ∈ s.microtasks ↔ s.Due job
  /-- A call's tail resolves before its `settled` runs. -/
  releases : ∀ a, .release a ∈ s.microtasks → Before s.microtasks (.release a) (.settle a)
  /-- The `settled` of a call runs before the body of the next. -/
  settles : ∀ (a : AcquireId) call p, s.calls[a]? = some call → call.phase = .chained (some p) →
    .start a ∈ s.microtasks → .settle p ∈ s.microtasks →
    Before s.microtasks (.settle p) (.start a)

/-! ### The calls -/

/-- A call is found by its phase. -/
theorem due_of_found {job : Microtask} (found : s.calls[job.call]? = some call) :
    s.Due job ↔ call.phase.owes s.tailResolved job = true := by
  -- What is due is read from the phase of the call.
  simp [Due, found]

/-- Moving a call on resolves no tail unless the move does. -/
theorem tailResolved_move (calls : next.calls = (s.setPhase a move).calls)
    (same : ∀ call, s.calls[a]? = some call →
      (move call.phase).tailResolved = call.phase.tailResolved) :
    next.tailResolved = s.tailResolved := by
  funext after
  -- Whether a tail has resolved is read off the phase of its call.
  cases after with
  | none => rfl
  | some b =>
    rw [tailResolved, calls]
    exact Arena.any_getElem?_modify
      (fun call : ExclusiveCall κ ν ε => call.phase.tailResolved) same b

/-- A move that resolves no tail leaves what is due of the other calls. -/
theorem due_move (calls : next.calls = (s.setPhase a move).calls)
    (resolved : next.tailResolved = s.tailResolved) {job : Microtask} (other : job.call ≠ a) :
    next.Due job ↔ s.Due job := by
  -- The other call has its record and its tail as before.
  simp only [Due, calls, setPhase, resolved, Arena.getElem?_modify_other _ _ (Ne.symm other)]

/-- What is due of the call that moved is up to its new phase. -/
theorem due_moved (found : s.calls[a]? = some call)
    (calls : next.calls = (s.setPhase a move).calls) {job : Microtask} (own : job.call = a) :
    next.Due job ↔ (move call.phase).owes next.tailResolved job = true := by
  -- The call is read with the phase that it moved to.
  have read : next.calls[job.call]? = some { call with phase := move call.phase } := by
    rw [calls, own]
    exact Arena.getElem?_modify_self _ found
  exact due_of_found read

/-- A call that is still chained was so before. -/
theorem chained_of_move {b : AcquireId} {after : Option AcquireId} {later : ExclusiveCall κ ν ε}
    (calls : next.calls = (s.setPhase a move).calls)
    (begins : ∀ call, s.calls[a]? = some call → ∀ after, move call.phase ≠ .chained after)
    (read : next.calls[b]? = some later) (phase : later.phase = .chained after) :
    s.calls[b]? = some later := by
  rw [calls] at read
  -- The call that moves is not chained afterwards, and the others are as before.
  rcases Arena.getElem?_modify_cases read with ⟨rfl, old, before, rfl⟩ | ⟨-, before⟩
  · exact absurd phase (begins old before after)
  · exact before

/-- The calls behind another are those chained on its tail. -/
theorem mem_behind {b : AcquireId} : b ∈ s.behind a ↔
    ∃ later, s.calls[b]? = some later ∧ later.phase = .chained (some a) := by
  simp only [behind, List.mem_filter, List.mem_range, Option.any_eq_true]
  constructor
  · rintro ⟨-, later, read, waits⟩
    refine ⟨later, read, ?_⟩
    -- Nothing but a chained call is behind another one.
    cases now : later.phase with
    | chained after => simpa [ExclusivePhase.isBehind, now] using waits
    | _ => simp [ExclusivePhase.isBehind, now] at waits
  · rintro ⟨later, read, waits⟩
    exact ⟨(List.getElem?_eq_some_iff.mp read).1, later, read, by
      simp [waits, ExclusivePhase.isBehind]⟩

/-- What is queued for the calls behind another starts one of them. -/
theorem mem_starts {job : Microtask} : job ∈ (s.behind a).map Microtask.start ↔
    ∃ b, job = .start b ∧ b ∈ s.behind a := by
  -- Each start names the call behind.
  rw [List.mem_map]
  exact exists_congr fun b => and_comm.trans (and_congr_left' eq_comm)

/-- Once a tail resolves it counts among the resolved ones. -/
theorem tailResolved_release {result : Except ε ν} (found : s.calls[a]? = some call)
    (phase : call.phase = .concluded result) (calls : next.calls = (s.setPhase a .release).calls)
    (after : Option AcquireId) :
    next.tailResolved after = (decide (after = some a) || s.tailResolved after) := by
  cases after with
  | none => simp [tailResolved]
  | some b =>
    simp only [tailResolved, calls, setPhase]
    -- The tail of the call that is released has resolved from now on.
    by_cases here : a = b
    · subst here
      simp [found, phase, ExclusivePhase.release, ExclusivePhase.tailResolved]
    · simp [Arena.getElem?_modify_other _ _ here, Ne.symm here]

/-- A tail that resolves leaves what is due but its own reaction, and calls for starts behind. -/
theorem due_release {result : Except ε ν} {job : Microtask} (found : s.calls[a]? = some call)
    (phase : call.phase = .concluded result) (calls : next.calls = (s.setPhase a .release).calls) :
    job ≠ .release a ∧ s.Due job ∨ (∃ b, job = .start b ∧ b ∈ s.behind a) ↔ next.Due job := by
  by_cases own : job.call = a
  · -- The call itself is past being chained, and only its `settled` is left to run.
    rw [due_moved found calls own, due_of_found (own ▸ found), phase]
    have behindItself : a ∉ s.behind a := by
      rw [mem_behind]
      rintro ⟨later, read, waits⟩
      cases found.symm.trans read
      simp [phase] at waits
    cases job with
    | start b =>
      obtain rfl : b = a := own
      simpa [ExclusivePhase.owes, ExclusivePhase.release] using behindItself
    | release b =>
      obtain rfl : b = a := own
      simp [ExclusivePhase.owes, ExclusivePhase.release]
    | settle b => simp [ExclusivePhase.owes, ExclusivePhase.release]
  · have differ : job ≠ .release a := fun same => own (congrArg Microtask.call same)
    have read : next.calls[job.call]? = s.calls[job.call]? := by
      rw [calls]
      exact Arena.getElem?_modify_other _ _ (Ne.symm own)
    have resolved := tailResolved_release found phase calls
    cases job with
    | start b =>
      -- A call may have been queued before, or is queued for the tail that resolves.
      simp only [Due, read, Option.any_eq_true]
      constructor
      · rintro (⟨-, later, present, due⟩ | ⟨c, same, waits⟩)
        · refine ⟨later, present, ?_⟩
          cases now : later.phase with
          | chained after =>
            have ready : s.tailResolved after = true := by
              simpa [ExclusivePhase.owes, now] using due
            simp [ExclusivePhase.owes, resolved, ready]
          | _ => simp [ExclusivePhase.owes, now] at due
        · cases same
          obtain ⟨later, present, chained⟩ := mem_behind.mp waits
          exact ⟨later, present, by simp [chained, ExclusivePhase.owes, resolved]⟩
      · rintro ⟨later, present, due⟩
        cases now : later.phase with
        | chained after =>
          simp only [ExclusivePhase.owes, now, resolved, Bool.or_eq_true,
            decide_eq_true_eq] at due
          rcases due with rfl | before
          · exact .inr ⟨b, rfl, mem_behind.mpr ⟨later, present, now⟩⟩
          · exact .inl ⟨differ, later, present, by simpa [now, ExclusivePhase.owes] using before⟩
        | _ => simp [ExclusivePhase.owes, now] at due
    | release b | settle b =>
      simp only [Due, read, ExclusivePhase.owes]
      simp [differ]

namespace Queued

/-- The head of the queue is due, and its call is there. -/
theorem exists_head {job : Microtask} {rest : List Microtask} (queued : Queued s)
    (first : s.microtasks = job :: rest) : ∃ call, s.calls[job.call]? = some call ∧
      call.phase.owes s.tailResolved job = true := by
  -- What is queued is due, which includes that its call is there.
  have due := (queued.due job).mp (by simp [first])
  simpa [Due, Option.any_eq_true] using due

/-- A move that neither asks for reactions nor did so before leaves the queue as it is. -/
theorem of_no_jobs (queued : Queued s) (move : ExclusivePhase ν ε → ExclusivePhase ν ε)
    (found : s.calls[a]? = some call)
    (calls : next.calls = (s.setPhase a move).calls)
    (jobs : next.microtasks = s.microtasks)
    (before : ∀ job, call.phase.owes s.tailResolved job = false)
    (after : ∀ job, (move call.phase).owes s.tailResolved job = false)
    (same : (move call.phase).tailResolved = call.phase.tailResolved)
    (begins : ∀ after, move call.phase ≠ .chained after) : Queued next := by
  have resolved := tailResolved_move calls fun other present => by
    cases found.symm.trans present
    exact same
  -- A move that owes no job before or after it leaves the queue as it is.
  constructor
  case once => exact jobs ▸ queued.once
  case due =>
    intro job
    rw [jobs, queued.due]
    by_cases own : job.call = a
    · rw [due_moved found calls own, resolved, due_of_found (own ▸ found), before, after]
    · rw [due_move calls resolved own]
  case releases => exact jobs ▸ queued.releases
  case settles =>
    intro b later p read phase
    rw [jobs]
    refine queued.settles b later p (chained_of_move calls (fun other present => ?_) read phase)
      phase
    cases found.symm.trans present
    exact begins

/-- Behind the first reaction stand the others. -/
theorem mem_rest {job other : Microtask} {rest : List Microtask} (queued : Queued s)
    (first : s.microtasks = job :: rest) :
    other ∈ rest ↔ other ≠ job ∧ other ∈ s.microtasks := by
  -- The first job is in the queue once.
  have absent : job ∉ rest := (List.nodup_cons.mp (first ▸ queued.once)).1
  rw [first, List.mem_cons]
  constructor
  · intro inside
    exact ⟨fun same => absent (same ▸ inside), .inr inside⟩
  · rintro ⟨differ, here | inside⟩
    · exact absurd here differ
    · exact inside

/-- Running the first reaction takes what was due of its call by it, where no other is added. -/
theorem run {job : Microtask} {rest : List Microtask} (queued : Queued s)
    (move : ExclusivePhase ν ε → ExclusivePhase ν ε)
    (first : s.microtasks = job :: rest) (found : s.calls[job.call]? = some call)
    (calls : next.calls = (s.setPhase job.call move).calls) (jobs : next.microtasks = rest)
    (only : ∀ other : Microtask, other.call = job.call →
      ((move call.phase).owes s.tailResolved other = true ↔
        other ≠ job ∧ call.phase.owes s.tailResolved other = true))
    (same : (move call.phase).tailResolved = call.phase.tailResolved)
    (begins : ∀ after, move call.phase ≠ .chained after) : Queued next := by
  have resolved := tailResolved_move calls fun other present => by
    cases found.symm.trans present
    exact same
  have once := first ▸ queued.once
  have earlier {other : Microtask} : other ∈ rest ↔ other ≠ job ∧ other ∈ s.microtasks :=
    queued.mem_rest first
  -- The job that ran is owed no longer, and the others keep their order.
  constructor
  case once => exact jobs ▸ (List.nodup_cons.mp once).2
  case due =>
    intro other
    rw [jobs, earlier, queued.due]
    by_cases own : other.call = job.call
    · rw [due_moved found calls own, resolved, only other own, due_of_found (own ▸ found)]
    · rw [due_move calls resolved own]
      exact ⟨And.right, fun due => ⟨fun same => own (congrArg Microtask.call same), due⟩⟩
  case releases =>
    intro b inside
    rw [jobs] at inside ⊢
    obtain ⟨differ, before⟩ := earlier.mp inside
    exact (first ▸ queued.releases b before).tail differ
  case settles =>
    intro b later p read phase start settle
    rw [jobs] at start settle ⊢
    have before := chained_of_move calls (fun other present => by
      cases found.symm.trans present
      exact begins) read phase
    exact (first ▸ queued.settles b later p before phase (earlier.mp start).2
      (earlier.mp settle).2).tail (earlier.mp settle).1

/-- The tail of a call resolves, and the calls chained on it are queued to start. -/
theorem release {rest : List Microtask} {result : Except ε ν} (queued : Queued s)
    (first : s.microtasks = .release a :: rest) (found : s.calls[a]? = some call)
    (phase : call.phase = .concluded result)
    (calls : next.calls = (s.setPhase a .release).calls)
    (jobs : next.microtasks = rest ++ (s.behind a).map .start) : Queued next := by
  have onceRest : rest.Nodup := (List.nodup_cons.mp (first ▸ queued.once)).2
  have earlier {job : Microtask} : job ∈ rest ↔ job ≠ .release a ∧ job ∈ s.microtasks :=
    queued.mem_rest first
  -- The tail had not resolved, so whoever is chained on it has not been queued.
  have fresh {job : Microtask} (inside : job ∈ (s.behind a).map Microtask.start) :
      job ∉ s.microtasks := by
    obtain ⟨b, waits, rfl⟩ := List.mem_map.mp inside
    obtain ⟨later, read, chained⟩ := mem_behind.mp waits
    have unresolved : s.tailResolved (some a) = false := by
      simp [tailResolved, found, phase, ExclusivePhase.tailResolved]
    rw [queued.due, due_of_found read, chained]
    simp [ExclusivePhase.owes, unresolved]
  -- A call that is still chained was so before, on the same tail.
  have kept (b : AcquireId) (later : ExclusiveCall κ ν ε) (after : Option AcquireId)
      (read : next.calls[b]? = some later) (waits : later.phase = .chained after) :
      s.calls[b]? = some later := by
    refine chained_of_move calls (fun other present => ?_) read waits
    cases found.symm.trans present
    simp [phase, ExclusivePhase.release]
  constructor
  case once =>
    rw [jobs, List.nodup_append]
    refine ⟨onceRest, ?_, fun job inside other new same => ?_⟩
    · exact (List.nodup_range.filter _).map fun left right same => by simpa using same
    · exact fresh new (same ▸ (earlier.mp inside).2)
  case due =>
    intro job
    rw [jobs, List.mem_append, earlier, queued.due, mem_starts, due_release found phase calls]
  case releases =>
    intro b inside
    rw [jobs, List.mem_append, mem_starts] at inside
    obtain ⟨differ, before⟩ := earlier.mp (inside.resolve_right (by simp))
    rw [jobs]
    exact ((first ▸ queued.releases b before).tail differ).append _
  case settles =>
    intro b later p read waits start settle
    rw [jobs, List.mem_append, mem_starts] at settle
    have settle := settle.resolve_right (by simp)
    rw [jobs, List.mem_append] at start
    rw [jobs]
    -- A chained call that starts now does so behind every job that was waiting.
    rcases start with before | new
    · exact ((first ▸ queued.settles b later p (kept b later _ read waits) waits
        (earlier.mp before).2 (earlier.mp settle).2).tail (earlier.mp settle).1).append _
    · exact .of_mem_append settle new

/-- The `result` of a call settles, and both reactions to it are queued. -/
theorem follow {result : Except ε ν} (queued : Queued s) (found : s.calls[a]? = some call)
    (phase : call.phase = .finished result)
    (calls : next.calls = (s.setPhase a fun _ => .concluded result).calls)
    (jobs : next.microtasks = s.microtasks ++ [.release a, .settle a]) : Queued next := by
  have resolved := tailResolved_move calls fun other present => by
    cases found.symm.trans present
    simp [phase, ExclusivePhase.tailResolved]
  -- The call had no job in the queue, since it owed none.
  have absent {job : Microtask} (own : job.call = a) : job ∉ s.microtasks := by
    rw [queued.due, due_of_found (own ▸ found), phase]
    cases job <;> simp [ExclusivePhase.owes]
  -- And the jobs of the others are those they had.
  have older {job : Microtask} (inside : job ∈ next.microtasks) (other : job.call ≠ a) :
      job ∈ s.microtasks := by
    rw [jobs, List.mem_append] at inside
    refine inside.resolve_right fun new => other ?_
    rcases List.mem_pair.mp new with rfl | rfl <;> rfl
  constructor
  case once =>
    rw [jobs, List.nodup_append]
    refine ⟨queued.once, by simp, fun job inside other new same => ?_⟩
    have own : job.call = a := by rcases List.mem_pair.mp (same ▸ new) with rfl | rfl <;> rfl
    exact absent own inside
  case due =>
    intro job
    by_cases own : job.call = a
    · rw [due_moved found calls own, jobs, List.mem_append]
      have none := absent own
      cases job with
      | start b | release b | settle b =>
        obtain rfl : b = a := own
        simp [none, ExclusivePhase.owes]
    · rw [due_move calls resolved own, ← queued.due]
      exact ⟨fun inside => older inside own, fun inside => jobs ▸ List.mem_append_left _ inside⟩
  case releases =>
    intro b inside
    by_cases own : b = a
    · subst own
      rw [jobs]
      exact List.sublist_append_right _ _
    · rw [jobs]
      -- The jobs of another call are in the order they were in.
      exact (queued.releases b (older inside own)).append _
  case settles =>
    intro b later p read waits start settle
    have before := chained_of_move calls (fun _ _ => by simp) read waits
    have differ : b ≠ a := by
      rintro rfl
      cases found.symm.trans before
      simp [phase] at waits
    have start := older start differ
    -- Nobody is queued for a tail that has not resolved.
    have ahead : p ≠ a := by
      rintro rfl
      have due := (queued.due _).mp start
      rw [due_of_found before, waits] at due
      simp [ExclusivePhase.owes, tailResolved, found, phase, ExclusivePhase.tailResolved] at due
    rw [jobs]
    exact (queued.settles b later p before waits start (older settle ahead)).append _

/-- A call is chained, and queued to start if the tail it found has resolved. -/
theorem push {key : κ} {cell : Option CellId} {after : Option AcquireId} (queued : Queued s)
    (calls : next.calls = s.calls ++ [{ key, cell, phase := .chained after }])
    (jobs : next.microtasks = s.microtasks ++
      if s.tailResolved after then [.start s.calls.length] else []) : Queued next := by
  have resolved : next.tailResolved = s.tailResolved := by
    funext after
    cases after with
    | none => rfl
    | some b =>
      simp only [tailResolved, calls, Arena.getElem?_push]
      split
      · rename_i new
        subst new
        simp [ExclusivePhase.tailResolved]
      · rfl
  -- A new call has a job only if what it waits for has resolved.
  have new {job : Microtask} (inside : job ∈ (if s.tailResolved after then
      [.start s.calls.length] else [])) : job = .start s.calls.length ∧
        s.tailResolved after = true := by
    split at inside
    · exact ⟨List.mem_singleton.mp inside, ‹_›⟩
    · cases inside
  -- No job is owed for a call that has not been made.
  have made {job : Microtask} (inside : job ∈ s.microtasks) : job.call ≠ s.calls.length := by
    intro beyond
    have due := (queued.due job).mp inside
    simp [Due, beyond] at due
  constructor
  case once =>
    rw [jobs, List.nodup_append]
    refine ⟨queued.once, by split <;> simp, fun job inside other fresh same => made inside ?_⟩
    rw [same, (new fresh).1]
    rfl
  case due =>
    intro job
    rw [jobs, List.mem_append]
    by_cases own : job.call = s.calls.length
    · have read : next.calls[job.call]? = some ⟨key, cell, .chained after⟩ := by simp [calls, own]
      rw [due_of_found read, resolved]
      constructor
      · rintro (before | fresh)
        · exact absurd own (made before)
        · obtain ⟨rfl, ready⟩ := new fresh
          exact ready
      · cases job with
        | start b =>
          intro ready
          obtain rfl : b = s.calls.length := own
          exact .inr (by simpa [ExclusivePhase.owes] using ready)
        | release | settle => simp [ExclusivePhase.owes]
    · have read : next.calls[job.call]? = s.calls[job.call]? := by
        rw [calls, Arena.getElem?_push, if_neg own]
      simp only [Due, read, resolved]
      rw [queued.due]
      refine ⟨fun inside => inside.elim id fun fresh => ?_, .inl⟩
      exact absurd (congrArg Microtask.call (new fresh).1) own
  case releases =>
    intro b inside
    rw [jobs] at inside ⊢
    refine (queued.releases b ((List.mem_append.mp inside).resolve_right fun fresh => ?_)).append _
    cases (new fresh).1
  case settles =>
    intro b later p read waits start settle
    rw [jobs] at start settle ⊢
    have settle := (List.mem_append.mp settle).resolve_right fun fresh => by cases (new fresh).1
    rcases List.mem_append.mp start with before | fresh
    · have older : b ≠ s.calls.length := made before
      rw [calls, Arena.getElem?_push, if_neg older] at read
      exact (queued.settles b later p read waits before settle).append _
    · exact .of_mem_append settle fresh

end Queued

end ExclusiveSystem

end RefPool
