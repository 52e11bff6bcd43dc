import RefPool.Proofs.Borrowing

/-! The workers of `warm` share out the keys, and keep account of what they acquire. -/

namespace RefPool

variable {κ τ : Type}

namespace WarmWorker

/-- The key that a worker is at. -/
def keys : WarmWorker κ → List κ
  | .acquiring key _ _ => [key]
  | .warmed | .finished => []

/-- The call of `acquire` that a worker awaits. -/
def awaits : WarmWorker κ → List AcquireId
  | .acquiring _ _ a => [a]
  | .warmed | .finished => []

/-- The handles that a worker has. -/
def handles : WarmWorker κ → List HandleId
  | .acquiring _ handles _ => handles
  | .warmed | .finished => []

end WarmWorker

/-- A call of `warmKey` got all its handles, or was ended early by an error. -/
def Warmed.Whole (perKey : Int) (done : Warmed κ) : Prop :=
  match done.error with
  | none => done.handles.length = perKey
  | some _ => done.handles.length < perKey

namespace Warming

variable [DecidableEq κ] {options : PoolOptions} {prewarm : Option (PrewarmStrategy κ)}
  {s next : Warming κ τ}

/-- The keys that are being warmed. -/
def inProgress (s : Warming κ τ) : List κ := s.workers.flatMap WarmWorker.keys

/-- The calls of `acquire` that the workers await. -/
def awaited (s : Warming κ τ) : List AcquireId := s.workers.flatMap WarmWorker.awaits

/-- The handles that the workers have. -/
def held (s : Warming κ τ) : List HandleId := s.workers.flatMap WarmWorker.handles

/-- The outcomes of a step. -/
inductive Effect (options : PoolOptions) (prewarm : Option (PrewarmStrategy κ))
    (s : Warming κ τ) : WarmAction κ τ → Warming κ τ → Prop
  /-- The pool takes a step that releases no handle of `warm`. -/
  | pool (action : Action κ τ) (pool : State κ τ)
      (foreign : ∀ h, action = .releaseHandle h → s.owns h = false)
      (stepped : s.pool.step options action = some pool) :
      Effect options prewarm s (.pool action) { s with pool }
  /-- There is no strategy, and nothing to do. -/
  | nothing (strategy : Option (PrewarmStrategy κ)) (idle : s.phase = .idle) :
      Effect options prewarm s (.warm strategy) { s with phase := .fulfilled }
  /-- The function of the strategy is called. -/
  | asking (strategy : Option (PrewarmStrategy κ)) (chosen : PrewarmStrategy κ)
      (idle : s.phase = .idle) :
      Effect options prewarm s (.warm strategy) { s with phase := .listing chosen }
  /-- The keys are at hand, and the workers are started. -/
  | begun (given : Option (PrewarmStrategy κ)) (strategy : PrewarmStrategy κ) (keys : List κ)
      (idle : s.phase = .idle) : Effect options prewarm s (.warm given) (s.run strategy keys)
  /-- The keys have come, and the workers are started. -/
  | listed (strategy : PrewarmStrategy κ) (keys : List κ) (listing : s.phase = .listing strategy) :
      Effect options prewarm s (.listed (some keys)) (s.run strategy keys)
  /-- There are no keys to be had. -/
  | refused (strategy : PrewarmStrategy κ) (listing : s.phase = .listing strategy) :
      Effect options prewarm s (.listed none) { s with phase := .rejected }
  /-- A key needs more handles than it has by now. -/
  | more (w : Nat) (key : κ) (handles : List HandleId) (a : AcquireId) (h : HandleId)
      (found : s.workers[w]? = some (.acquiring key handles a))
      (given : s.pool.SettlesWith a (.ok h)) (short : (handles ++ [h]).length < s.perKey) :
      Effect options prewarm s (.acquired w)
        ((s.ask key (handles ++ [h])).2.setWorker w (s.ask key (handles ++ [h])).1)
  /-- A key has all its handles, and they are released. -/
  | warmed (w : Nat) (key : κ) (handles : List HandleId) (a : AcquireId) (h : HandleId)
      (found : s.workers[w]? = some (.acquiring key handles a))
      (given : s.pool.SettlesWith a (.ok h)) (enough : s.perKey ≤ (handles ++ [h]).length) :
      Effect options prewarm s (.acquired w) (s.conclude w key (handles ++ [h]) none)
  /-- A call of `acquire` failed, and the handles that its key has are released. -/
  | failed (w : Nat) (key : κ) (handles : List HandleId) (a : AcquireId) (error : PoolError)
      (found : s.workers[w]? = some (.acquiring key handles a))
      (failed : s.pool.SettlesWith a (.error error)) :
      Effect options prewarm s (.acquired w) (s.conclude w key handles (some error))
  /-- A worker takes the next key. -/
  | taken (w : Nat) (key : κ) (rest : List κ) (found : s.workers[w]? = some .warmed)
      (queue : s.queue = key :: rest) :
      Effect options prewarm s (.next w)
        (({ s with queue := rest, started := s.started ++ [key] }.ask key []).2.setWorker w
          ({ s with queue := rest, started := s.started ++ [key] }.ask key []).1)
  /-- A worker finds the queue empty. -/
  | left (w : Nat) (found : s.workers[w]? = some .warmed) (queue : s.queue = []) :
      Effect options prewarm s (.next w) (s.setWorker w .finished)
  /-- All workers have finished. -/
  | fulfilled (running : s.phase = .running)
      (done : ∀ worker ∈ s.workers, worker = .finished) :
      Effect options prewarm s .fulfil { s with phase := .fulfilled }

omit [DecidableEq κ] in
/-- A worker that has returned has finished. -/
theorem eq_finished {worker : WarmWorker κ} (finished : worker.isFinished = true) :
    worker = .finished := by
  -- Only one kind of worker has returned.
  cases worker with
  | finished => rfl
  | acquiring | warmed => cases finished

/-- Every step has one of the effects. -/
theorem effect_of_step {action : WarmAction κ τ}
    (stepped : s.step options prewarm action = some next) :
    Effect options prewarm s action next := by
  cases action with
  | pool action =>
    simp only [step] at stepped
    split at stepped
    · cases stepped
    · rename_i foreign
      obtain ⟨pool, moved, rfl⟩ := Option.map_eq_some_iff.mp stepped
      refine .pool action pool ?_ moved
      rintro h rfl
      simpa only [withholds, Bool.not_eq_true] using foreign
  -- Only a fresh call of `warm` runs, with the strategy given or the configured one.
  | warm strategy =>
    cases phase : s.phase with
    | idle =>
      simp only [step, phase, Option.some.injEq] at stepped
      subst stepped
      cases strategy.or prewarm with
      | none => exact .nothing strategy phase
      | some chosen =>
        cases listing : chosen.keys with
        | listed keys =>
          simp only [warm, listing]
          exact .begun strategy chosen keys phase
        | computed =>
          simp only [warm, listing]
          exact .asking strategy chosen phase
    -- The call fulfils once all workers have finished.
    | listing | running | fulfilled | rejected => simp [step, phase] at stepped
  | listed answer =>
    cases phase : s.phase with
    | listing strategy =>
      simp only [step, phase] at stepped
      cases answer with
      | none => cases stepped; exact .refused strategy phase
      | some keys => cases stepped; exact .listed strategy keys phase
    | idle | running | fulfilled | rejected => simp [step, phase] at stepped
  | acquired w =>
    simp only [step] at stepped
    obtain ⟨worker, found, stepped⟩ := Option.bind_eq_some_iff.mp stepped
    cases worker with
    | acquiring key handles a =>
      obtain ⟨acquire, called, stepped⟩ := Option.bind_eq_some_iff.mp stepped
      obtain ⟨outcome, settled, rfl⟩ := Option.map_eq_some_iff.mp stepped
      -- What `warmKey` does next depends on what the call has settled with.
      cases outcome with
      | error error => exact .failed w key handles a error found ⟨acquire, called, settled⟩
      | ok h =>
        simp only [acquired]
        split
        · exact .more w key handles a h found ⟨acquire, called, settled⟩ ‹_›
        · exact .warmed w key handles a h found ⟨acquire, called, settled⟩ (by omega)
    | warmed | finished => cases stepped
  -- A worker that has released its handles takes the next key, or finishes.
  | next w =>
    simp only [step] at stepped
    obtain ⟨worker, found, stepped⟩ := Option.bind_eq_some_iff.mp stepped
    cases worker with
    | warmed =>
      simp only [Option.some.injEq] at stepped
      subst stepped
      cases queue : s.queue with
      | nil =>
        simp only [take, queue]
        exact .left w found queue
      | cons key rest =>
        simp only [take, queue]
        exact .taken w key rest found queue
    | acquiring | finished => cases stepped
  | fulfil =>
    cases phase : s.phase with
    | running =>
      simp only [step, phase] at stepped
      split at stepped
      · rename_i finished
        cases stepped
        exact .fulfilled phase fun worker inside =>
          eq_finished (List.all_eq_true.mp finished worker inside)
      · cases stepped
    | idle | listing | fulfilled | rejected => simp [step, phase] at stepped

/-! ### Releasing the handles of a key -/

/-- Releasing a handle issues none and takes none back. -/
theorem handles_length_releaseHandle (pool : State κ τ) (h : HandleId) (handle : Handle) :
    (pool.releaseHandle h handle).handles.length = pool.handles.length := by
  -- A release assigns the flag of a handle, and perhaps an entry.
  unfold State.releaseHandle
  split
  · rfl
  · rw [(State.releaseEntry_effect _ handle.entry).sameCalls.handles]
    exact List.length_modify _ _ _

/-- The rule for releasing some handles: each release is a step of the pool. -/
theorem releaseAll_rule (options : PoolOptions) {P : State κ τ → List HandleId → Prop}
    {pool : State κ τ} {handles : List HandleId} (issued : ∀ h ∈ handles, h < pool.handles.length)
    (turn : ∀ pool h handle rest next, pool.handles[h]? = some handle →
      pool.step options (.releaseHandle h) = some next → P pool (h :: rest) → P next rest)
    (start : P pool handles) : P (releaseAll pool handles) [] := by
  -- By induction on the handles; each of them is still there when its turn comes.
  induction handles generalizing pool with
  | nil => exact start
  | cons h rest ih =>
    obtain ⟨handle, here⟩ : ∃ handle, pool.handles[h]? = some handle :=
      ⟨_, List.getElem?_eq_getElem (issued h List.mem_cons_self)⟩
    have stepped : pool.step options (.releaseHandle h) = some (pool.releaseHandle h handle) := by
      simp [State.step, here]
    have others : ∀ other ∈ rest, other < (pool.releaseHandle h handle).handles.length := by
      intro other inside
      rw [handles_length_releaseHandle]
      exact issued other (List.mem_cons_of_mem _ inside)
    have released := ih others (turn pool h handle rest _ here stepped start)
    simpa only [releaseAll, List.foldl_cons, here] using released

/-- What every step of the pool keeps, releasing some handles keeps. -/
theorem releaseAll_kept (options : PoolOptions) {P : State κ τ → Prop} {pool : State κ τ}
    {handles : List HandleId} (issued : ∀ h ∈ handles, h < pool.handles.length)
    (kept : ∀ pool h next, pool.step options (.releaseHandle h) = some next → P pool → P next)
    (start : P pool) : P (releaseAll pool handles) :=
  -- The property does not depend on which handles are left.
  releaseAll_rule options (P := fun pool _ => P pool) issued
    (fun _ _ _ _ _ _ stepped => kept _ _ _ stepped) start

/-- Afterwards each of them is released. -/
theorem released_releaseAll {pool : State κ τ} {handles : List HandleId} (core : Core pool)
    (issued : ∀ h ∈ handles, h < pool.handles.length) :
    ∀ h ∈ handles, (releaseAll pool handles).Released h := by
  -- Those that are still to be released become fewer, and the others stay released.
  have done := releaseAll_rule { max := 0 } (P := fun pool rest => Core pool ∧
    ∀ h ∈ handles, pool.Released h ∨ h ∈ rest) issued ?_ ⟨core, fun h inside => .inr inside⟩
  · exact fun h inside => (done.2 h inside).resolve_right List.not_mem_nil
  · intro pool h handle rest next here stepped kept
    refine ⟨State.core_step kept.1 stepped, fun other inside => ?_⟩
    rcases kept.2 other inside with released | waiting
    · exact .inl (released.step kept.1 stepped)
    · rcases List.mem_cons.mp waiting with rfl | later
      · simp only [State.step, here, Option.map_some, Option.some.injEq] at stepped
        exact .inl (stepped ▸ State.released_releaseHandle here)
      · exact .inr later

/-- Whatever is released by then was released before, or is one of them. -/
theorem of_releaseAll {pool : State κ τ} {handles : List HandleId} (core : Core pool)
    (issued : ∀ h ∈ handles, h < pool.handles.length) :
    ∀ h, (releaseAll pool handles).Released h → h ∈ handles ∨ (pool.Released h ∧
      ∀ a, (releaseAll pool handles).SettlesWith a (.ok h) → pool.SettlesWith a (.ok h)) := by
  -- By the rule of releases, where a release concerns its own handle only.
  have last := releaseAll_rule { max := 0 } (P := fun after rest => (Core after ∧
    ∀ h ∈ rest, h ∈ handles) ∧ ∀ h, after.Released h → h ∈ handles ∨ (pool.Released h ∧
      ∀ a, after.SettlesWith a (.ok h) → pool.SettlesWith a (.ok h))) issued ?_
    ⟨⟨core, fun _ inside => inside⟩, fun h released => .inr ⟨released, fun _ => id⟩⟩
  · exact last.2
  · intro after h handle rest next _ stepped kept
    obtain ⟨⟨core, listed⟩, same⟩ := kept
    refine ⟨⟨State.core_step core stepped, fun other inside =>
      listed other (List.mem_cons_of_mem _ inside)⟩, fun other released => ?_⟩
    by_cases here : other = h
    · exact .inl (here ▸ listed h List.mem_cons_self)
    · have before := State.released_of_step core stepped released (by simpa using Ne.symm here)
      refine (same other before).imp_right fun kept => ⟨kept.1, fun a given => ?_⟩
      exact kept.2 a (given.of_released core stepped before)

/-! ### What holds between the steps -/

/-- The keys are shared out, and the calls and handles are accounted for. -/
structure Working (s : Warming κ τ) : Prop where
  core : Core s.pool
  issues : State.IssuedOnce s.pool
  account : s.pool.Account s.asked s.awaited (s.held ++ s.releases)
  flagged : ∀ h ∈ s.releases, s.pool.Released h
  /-- Nobody else has released a handle of `warm`. -/
  own : ∀ a h, a ∈ s.asked → s.pool.SettlesWith a (.ok h) → s.pool.Released h → h ∈ s.releases
  positive : 1 ≤ s.perKey
  taken : s.started ++ s.queue = s.keys
  shared : (s.warmed.map Warmed.key ++ s.inProgress).Perm s.started
  short : ∀ key handles a, .acquiring key handles a ∈ s.workers →
    (handles.length : Int) < s.perKey
  whole : ∀ done ∈ s.warmed, done.Whole s.perKey
  /-- Workers finish when there are no keys left. -/
  drained : .finished ∈ s.workers → s.queue = []

omit [DecidableEq κ] in
/-- A worker is where it went on to, or where it was. -/
theorem mem_setWorker {w : Nat} {worker other : WarmWorker κ}
    (inside : other ∈ (s.setWorker w worker).workers) : other = worker ∨ other ∈ s.workers := by
  -- Only the worker at the address was assigned.
  obtain ⟨i, found⟩ := List.mem_iff_getElem?.mp inside
  rcases Arena.getElem?_modify_cases found with ⟨-, -, -, rfl⟩ | ⟨-, before⟩
  · exact .inl rfl
  · exact .inr (List.mem_of_getElem? before)

omit [DecidableEq κ] in
/-- The handles of `warm` are those that its calls of `acquire` were given. -/
theorem owns_iff {h : HandleId} :
    s.owns h = true ↔ ∃ a ∈ s.asked, s.pool.SettlesWith a (.ok h) := by
  -- A call is fulfilled if it has settled with the handle.
  have given (phase : Phase) :
      decide (phase = .fulfilled h) = true ↔ phase.settlement = some (.ok h) := by
    cases phase <;> simp [Phase.settlement]
  simp only [owns, List.any_eq_true, Option.any_eq_true, State.SettlesWith, given]

omit [DecidableEq κ] in
/-- What the workers have changes by what the one has that goes on. -/
theorem perm_flatMap_setWorker {β : Type} (f : WarmWorker κ → List β) {w : Nat} {old : WarmWorker κ}
    (new : WarmWorker κ) (found : s.workers[w]? = some old) :
    (f old ++ (s.setWorker w new).workers.flatMap f).Perm (f new ++ s.workers.flatMap f) :=
  -- Only the worker at the address was assigned.
  Arena.flatMap_modify_perm (fun _ => new) f found

namespace Working

variable {w : Nat} {key : κ} {handles : List HandleId} {a : AcquireId} {h : HandleId}
  {error : Option PoolError}

/-- A step of the pool leaves the workers alone. -/
theorem pool {action : Action κ τ} {pool : State κ τ} (working : Working s)
    (foreign : ∀ h, action = .releaseHandle h → s.owns h = false)
    (stepped : s.pool.step options action = some pool) : Working { s with pool } where
  core := State.core_step working.core stepped
  issues := working.issues.step working.core stepped
  account := working.account.step working.core stepped
  flagged := fun h inside => (working.flagged h inside).step working.core stepped
  own := by
    intro a h mine given released
    by_cases other : action = .releaseHandle h
    · -- What `warm` was given is out of reach of others.
      have before : s.pool.SettlesWith a (.ok h) := by
        rcases State.gave_of_step working.core stepped given with before | ⟨own, -, -⟩
        · exact before
        · rw [other] at own
          cases own
      have owned : s.owns h = true := owns_iff.mpr ⟨a, mine, before⟩
      rw [foreign h other] at owned
      cases owned
    · have before := State.released_of_step working.core stepped released other
      exact working.own a h mine (given.of_released working.core stepped before) before
  positive := working.positive
  taken := working.taken
  shared := working.shared
  short := working.short
  whole := working.whole
  drained := working.drained

/-- Where the call of `warm` stands is not the concern of its workers. -/
theorem setPhase (working : Working s) (phase : WarmPhase κ) : Working { s with phase } :=
  -- No clause reads it.
  ⟨working.core, working.issues, working.account, working.flagged, working.own, working.positive,
    working.taken, working.shared, working.short, working.whole, working.drained⟩

/-- A call of `acquire` releases no handle. -/
theorem own_ask (working : Working s) (key : κ) : ∀ a h, a ∈ s.asked ++ [s.pool.acquires.length] →
    (s.pool.acquire key).SettlesWith a (.ok h) → (s.pool.acquire key).Released h →
      h ∈ s.releases := by
  have stepped : s.pool.step { max := 0 } (.acquire key) = some (s.pool.acquire key) := rfl
  intro a h mine given released
  have before := State.released_of_step working.core stepped released (by simp)
  have given := given.of_released working.core stepped before
  rcases List.mem_append.mp mine with old | new
  · exact working.own a h old given before
  · -- The new call has not settled with a handle that is out already.
    obtain ⟨acquire, called, -⟩ := given
    rw [List.mem_singleton.mp new, List.getElem?_eq_none (Nat.le_refl _)] at called
    cases called

/-- A worker that needs more handles for its key awaits another call. -/
theorem ask_next (working : Working s) (found : s.workers[w]? = some (.acquiring key handles a))
    (given : s.pool.SettlesWith a (.ok h)) (short : (handles ++ [h]).length < s.perKey) :
    Working ((s.ask key (handles ++ [h])).2.setWorker w (s.ask key (handles ++ [h])).1) := by
  have stepped : s.pool.step { max := 0 } (.acquire key) = some (s.pool.acquire key) := rfl
  have core := State.core_step working.core stepped
  have issues := working.issues.step working.core stepped
  have keys := perm_flatMap_setWorker WarmWorker.keys (s.ask key (handles ++ [h])).1 found
  have calls := perm_flatMap_setWorker WarmWorker.awaits (s.ask key (handles ++ [h])).1 found
  have lent := perm_flatMap_setWorker WarmWorker.handles (s.ask key (handles ++ [h])).1 found
  constructor
  · exact core
  · exact issues
  · -- The call that is awaited no more has given a handle, and another call is awaited.
    have asked := (working.account.ask working.core key).perm calls.symm (.refl _)
    have account := asked.give issues (given.step working.core stepped)
    have more := (List.perm_append_left_iff handles).mp
      (by simpa [ask, WarmWorker.handles] using lent)
    exact account.perm (.refl _) (more.symm.append_right s.releases)
  · exact fun h inside => (working.flagged h inside).step working.core stepped
  · exact working.own_ask key
  · exact working.positive
  · exact working.taken
  · exact ((List.perm_cons key).mp keys).append_left _ |>.trans working.shared
  · intro key' handles' a' inside
    rcases mem_setWorker inside with same | before
    · cases same
      exact short
    · exact working.short key' handles' a' before
  · exact working.whole
  · exact fun inside => working.drained ((mem_setWorker inside).resolve_left (by simp [ask]))

/-- The handles that are released in the end were issued. -/
theorem issued (working : Working s) {awaited : List AcquireId}
    {got rest : List HandleId} (account : s.pool.Account s.asked awaited (got ++ rest)) :
    ∀ h ∈ got, h < s.pool.handles.length := by
  -- Each of them was given by a call, and what is given was issued.
  intro h inside
  obtain ⟨a, -, -, given⟩ := account.given h (List.mem_append_left _ inside)
  exact working.issues.issued a h given

/-- A worker that is done with its key has released the handles that it got. -/
theorem conclude {got : List HandleId} (working : Working s)
    (found : s.workers[w]? = some (.acquiring key handles a))
    (account : s.pool.Account s.asked (s.setWorker w .warmed).awaited
      (got ++ ((s.setWorker w .warmed).held ++ s.releases)))
    (whole : Warmed.Whole s.perKey ⟨key, got, error⟩) :
    Working (s.conclude w key got error) := by
  have issued := working.issued account
  -- The releases are steps of the pool, which keep all that the pool promises.
  obtain ⟨core, issues, account, flagged⟩ := releaseAll_kept { max := 0 } (P := fun pool =>
    Core pool ∧ State.IssuedOnce pool ∧ pool.Account s.asked (s.setWorker w .warmed).awaited
      (got ++ ((s.setWorker w .warmed).held ++ s.releases)) ∧
        ∀ h ∈ s.releases, pool.Released h) issued
    (fun pool h next stepped kept => ⟨State.core_step kept.1 stepped,
      kept.2.1.step kept.1 stepped, kept.2.2.1.step kept.1 stepped,
      fun h inside => (kept.2.2.2 h inside).step kept.1 stepped⟩)
    ⟨working.core, working.issues, account, working.flagged⟩
  have keys := perm_flatMap_setWorker WarmWorker.keys .warmed found
  constructor
  · exact core
  · exact issues
  · refine account.perm (.refl _) ?_
    exact (List.perm_append_comm.trans (.of_eq (List.append_assoc _ _ _)))
  · intro h inside
    rcases List.mem_append.mp inside with before | new
    · exact flagged h before
    · exact released_releaseAll working.core issued h new
  · intro a h mine given released
    rcases of_releaseAll working.core issued h released with new | ⟨before, same⟩
    · exact List.mem_append_right _ new
    · exact List.mem_append_left _ (working.own a h mine (same a given) before)
  · exact working.positive
  · exact working.taken
  · -- The key is in progress no more, and is among those that are done.
    refine List.Perm.trans ?_ working.shared
    show ((s.warmed ++ [(⟨key, got, error⟩ : Warmed κ)]).map Warmed.key ++
      (s.setWorker w .warmed).inProgress).Perm _
    rw [List.map_append, List.append_assoc]
    exact keys.append_left _
  · intro key' handles' a' inside
    exact working.short key' handles' a' ((mem_setWorker inside).resolve_left (by simp))
  · intro done inside
    rcases List.mem_append.mp inside with before | new
    · exact working.whole done before
    · rw [List.mem_singleton.mp new]
      exact whole
  · exact fun inside => working.drained ((mem_setWorker inside).resolve_left (by simp))

/-- The handles of a key that has them all are those of its worker and one that was just given. -/
theorem account_warmed (working : Working s)
    (found : s.workers[w]? = some (.acquiring key handles a))
    (given : s.pool.SettlesWith a (.ok h)) : s.pool.Account s.asked (s.setWorker w .warmed).awaited
      ((handles ++ [h]) ++ ((s.setWorker w .warmed).held ++ s.releases)) := by
  have calls := perm_flatMap_setWorker WarmWorker.awaits .warmed found
  have lent := perm_flatMap_setWorker WarmWorker.handles .warmed found
  have account := (working.account.perm calls.symm (.refl _)).give working.issues given
  refine account.perm (.refl _) ?_
  -- What the worker had stands at the front, and the new handle with it.
  have front : (h :: (s.held ++ s.releases)).Perm
      (h :: (handles ++ ((s.setWorker w .warmed).held ++ s.releases))) := by
    rw [← List.append_assoc]
    exact (lent.symm.append_right _).cons h
  exact front.trans (by simpa using List.perm_middle.symm)

/-- The handles of a key that could not be had are those of its worker. -/
theorem account_failed {error : PoolError} (working : Working s)
    (found : s.workers[w]? = some (.acquiring key handles a))
    (failed : s.pool.SettlesWith a (.error error)) :
    s.pool.Account s.asked (s.setWorker w .warmed).awaited
      (handles ++ ((s.setWorker w .warmed).held ++ s.releases)) := by
  -- The worker's call leaves the account, and its handles pass over to the released ones.
  have calls := perm_flatMap_setWorker WarmWorker.awaits .warmed found
  have lent := perm_flatMap_setWorker WarmWorker.handles .warmed found
  have account := (working.account.perm calls.symm (.refl _)).fail failed
  refine account.perm (.refl _) ?_
  rw [← List.append_assoc]
  exact lent.symm.append_right _

/-- A worker whose key has all its handles has released them. -/
theorem warmed (working : Working s) (found : s.workers[w]? = some (.acquiring key handles a))
    (given : s.pool.SettlesWith a (.ok h)) (enough : s.perKey ≤ (handles ++ [h]).length) :
    Working (s.conclude w key (handles ++ [h]) none) := by
  -- Short by one before this handle, the worker now has as many as it needs.
  have short := working.short key handles a (List.mem_of_getElem? found)
  refine working.conclude found (working.account_warmed found given) ?_
  show ((handles ++ [h]).length : Int) = s.perKey
  simp only [List.length_append, List.length_singleton] at enough ⊢
  omega

/-- A worker whose call of `acquire` failed has released the handles that it had. -/
theorem failed {error : PoolError} (working : Working s)
    (found : s.workers[w]? = some (.acquiring key handles a))
    (failed : s.pool.SettlesWith a (.error error)) :
    Working (s.conclude w key handles (some error)) :=
  -- What it had was less than what it needs.
  working.conclude found (working.account_failed found failed)
    (working.short key handles a (List.mem_of_getElem? found))

/-- A worker that takes a key awaits a first call of `acquire` for it. -/
theorem start {rest : List κ} (working : Working s) (queue : s.queue = key :: rest)
    (workers : List (WarmWorker κ))
    (kept : ∀ {β : Type} (f : WarmWorker κ → List β), f .warmed = [] →
      (workers.flatMap f).Perm
        (f (.acquiring key [] s.pool.acquires.length) ++ s.workers.flatMap f))
    (members : ∀ worker ∈ workers,
      worker = .acquiring key [] s.pool.acquires.length ∨ worker ∈ s.workers) :
    Working { s with
      pool := s.pool.acquire key
      asked := s.asked ++ [s.pool.acquires.length]
      queue := rest, started := s.started ++ [key], workers } := by
  have stepped : s.pool.step { max := 0 } (.acquire key) = some (s.pool.acquire key) := rfl
  constructor
  · exact State.core_step working.core stepped
  · exact working.issues.step working.core stepped
  · refine (working.account.ask working.core key).perm (kept WarmWorker.awaits rfl).symm ?_
    exact ((kept WarmWorker.handles rfl).symm.append_right s.releases)
  · exact fun h inside => (working.flagged h inside).step working.core stepped
  · exact working.own_ask key
  · exact working.positive
  · have taken := working.taken
    rw [queue] at taken
    simpa using taken
  · -- The key is in progress from now on.
    have moved := (kept WarmWorker.keys rfl).append_left (s.warmed.map Warmed.key)
    refine moved.trans (List.Perm.trans ?_ (working.shared.append_right [key]))
    rw [List.append_assoc]
    exact List.perm_append_comm.append_left _
  · intro key' handles' a' inside
    rcases members _ inside with same | before
    · cases same
      have positive := working.positive
      show ((0 : Nat) : Int) < s.perKey
      omega
    · exact working.short key' handles' a' before
  · exact working.whole
  · intro inside
    rcases members _ inside with same | before
    · cases same
    · -- No worker has finished, as there was a key left.
      rw [working.drained before] at queue
      cases queue

/-- A worker that finds no key left finishes. -/
theorem finish_of_queue_nil (working : Working s) (found : s.workers[w]? = some .warmed)
    (queue : s.queue = []) :
    Working (s.setWorker w .finished) := by
  have keys := perm_flatMap_setWorker WarmWorker.keys .finished found
  have calls := perm_flatMap_setWorker WarmWorker.awaits .finished found
  have lent := perm_flatMap_setWorker WarmWorker.handles .finished found
  -- The worker had neither key, nor call, nor handle, so the lists are the same.
  constructor
  · exact working.core
  · exact working.issues
  · exact working.account.perm calls.symm (lent.symm.append_right _)
  · exact working.flagged
  · exact working.own
  · exact working.positive
  · exact working.taken
  · exact (keys.append_left _).trans working.shared
  · intro key' handles' a' inside
    exact working.short key' handles' a' ((mem_setWorker inside).resolve_left (by simp))
  · exact working.whole
  · exact fun _ => queue

end Working

/-- The call of `warm` has not come to its keys. -/
def Untouched (s : Warming κ τ) : Prop :=
  s.queue = [] ∧ s.workers = [] ∧ s.started = [] ∧ s.warmed = []

/-- The invariant of a pool that is warmed: there are as many workers as may be, or as needed. -/
structure Sound (s : Warming κ τ) : Prop extends Working s where
  fanOut : 1 ≤ s.concurrency
  crew : (s.workers.length : Int) = min s.concurrency s.keys.length
  untouched : (s.phase = .idle ∨ ∃ strategy, s.phase = .listing strategy) → s.Untouched
  rested : s.phase = .fulfilled → s.queue = [] ∧ ∀ worker ∈ s.workers, worker = .finished

/-- A pool on which `warm` has not been called. -/
theorem sound_init (options : PoolOptions) : Sound (init options : Warming κ τ) where
  -- There are neither workers nor keys.
  core := State.core_init options
  issues := State.issuedOnce_init options
  account := .nil _
  flagged := fun _ inside => by cases inside
  own := fun _ _ mine => by cases mine
  positive := Int.le_refl 1
  taken := rfl
  shared := .refl _
  short := fun _ _ _ inside => by cases inside
  whole := fun _ inside => by cases inside
  drained := fun inside => by cases inside
  fanOut := Int.le_refl 1
  crew := rfl
  untouched := fun _ => ⟨rfl, rfl, rfl, rfl⟩
  rested := fun fulfilled => by cases fulfilled

/-- Each worker that is started takes a key, as long as there are keys. -/
theorem Working.startWorkers {count : Nat} (working : Working s)
    (enough : count ≤ s.queue.length) : Working (s.startWorkers count) ∧
      (s.startWorkers count).workers.length = s.workers.length + count ∧
      (s.startWorkers count).phase = s.phase ∧ (s.startWorkers count).keys = s.keys ∧
      (s.startWorkers count).concurrency = s.concurrency := by
  -- By induction on how many are started; each start takes the first key of the queue.
  induction count generalizing s with
  | zero => exact ⟨working, rfl, rfl, rfl, rfl⟩
  | succ count ih =>
    cases queue : s.queue with
    | nil =>
      rw [queue] at enough
      cases enough
    | cons key rest =>
      simp only [Warming.startWorkers, take, queue, ask]
      have started := working.start queue (s.workers ++ [.acquiring key [] s.pool.acquires.length])
        (fun f _ => by
          rw [List.flatMap_append, List.flatMap_singleton]
          exact List.perm_append_comm)
        (fun worker inside => by
          rcases List.mem_append.mp inside with before | new
          · exact .inr before
          · exact .inl (List.mem_singleton.mp new))
      rw [queue, List.length_cons] at enough
      obtain ⟨working, length, phase, keys, concurrency⟩ :=
        ih started (Nat.le_of_succ_le_succ enough)
      refine ⟨working, ?_, phase, keys, concurrency⟩
      rw [length]
      simp only [List.length_append, List.length_singleton]
      omega

/-- Once the keys are there, the workers start on them. -/
theorem Sound.run (sound : Sound s) (untouched : s.Untouched) (strategy : PrewarmStrategy κ)
    (keys : List κ) : Sound (s.run strategy keys) := by
  obtain ⟨-, workers, started, warmed⟩ := untouched
  have concurrency : 1 ≤ max 1 (strategy.concurrency.getD 8) := by omega
  -- Nothing is awaited, held or released by then.
  have ready : Working { s with
      phase := .running, keys, perKey := max 1 (strategy.perKey.getD 1)
      concurrency := max 1 (strategy.concurrency.getD 8), queue := keys } := by
    have account := sound.account
    have flagged := sound.flagged
    constructor
    · exact sound.core
    · exact sound.issues
    · exact account
    · exact flagged
    · exact sound.own
    · show 1 ≤ max 1 (strategy.perKey.getD 1)
      omega
    · simp [started]
    · simp [warmed, started, inProgress, workers]
    · simp [workers]
    · simp [warmed]
    · simp [workers]
  have enough : (min (max 1 (strategy.concurrency.getD 8)) (keys.length : Int)).toNat ≤
      keys.length := by omega
  obtain ⟨working, length, phase, same, fanOut⟩ := ready.startWorkers enough
  refine { toWorking := working, fanOut := ?_, crew := ?_, untouched := ?_, rested := ?_ }
  · exact fanOut ▸ concurrency
  · show ((s.run strategy keys).workers.length : Int) = _
    rw [Warming.run, length, fanOut, same, workers]
    simp only [List.length_nil]
    omega
  · intro early
    rw [Warming.run, phase] at early
    rcases early with idle | ⟨strategy, listing⟩
    · cases idle
    · cases listing
  · intro fulfilled
    rw [Warming.run, phase] at fulfilled
    cases fulfilled

namespace Sound

/-- A worker that has not finished is at work in the middle of the call. -/
theorem phase_of_unfinished (sound : Sound s) {w : Nat} {worker : WarmWorker κ}
    (found : s.workers[w]? = some worker) (unfinished : worker ≠ .finished) :
    ¬(s.phase = .idle ∨ ∃ strategy, s.phase = .listing strategy) ∧ s.phase ≠ .fulfilled := by
  -- Before the workers start there are none, and after the end all have finished.
  constructor
  · intro early
    rw [(sound.untouched early).2.1] at found
    cases found
  · intro fulfilled
    exact unfinished ((sound.rested fulfilled).2 worker (List.mem_of_getElem? found))

/-- A worker that goes on leaves the call as it is. -/
theorem of_working (sound : Sound s) {w : Nat} {worker : WarmWorker κ}
    (found : s.workers[w]? = some worker) (unfinished : worker ≠ .finished)
    (working : Working next) (phase : next.phase = s.phase) (keys : next.keys = s.keys)
    (concurrency : next.concurrency = s.concurrency)
    (length : next.workers.length = s.workers.length) : Sound next := by
  obtain ⟨begun, unfulfilled⟩ := sound.phase_of_unfinished found unfinished
  -- Nothing but the workers has changed.
  refine { toWorking := working, fanOut := ?_, crew := ?_, untouched := ?_, rested := ?_ }
  · exact concurrency ▸ sound.fanOut
  · rw [length, keys, concurrency]
    exact sound.crew
  · intro early
    rw [phase] at early
    exact absurd early begun
  · intro fulfilled
    exact absurd (phase ▸ fulfilled) unfulfilled

/-- When all workers have finished, no key is left. -/
theorem queue_eq_nil (sound : Sound s) (done : ∀ worker ∈ s.workers, worker = .finished) :
    s.queue = [] := by
  cases workers : s.workers with
  | nil =>
    -- There are no workers only where there are no keys.
    have crew := sound.crew
    have fanOut := sound.fanOut
    rw [workers] at crew
    have none : s.keys = [] := by
      rw [← List.length_eq_zero_iff]
      simp only [List.length_nil] at crew
      omega
    have taken := sound.taken
    rw [none] at taken
    exact (List.append_eq_nil_iff.mp taken).2
  | cons worker rest =>
    have inside : worker ∈ s.workers := by simp [workers]
    exact sound.drained (done worker inside ▸ inside)

end Sound

/-- Every step keeps the invariant. -/
theorem Effect.sound {action : WarmAction κ τ} (sound : Sound s)
    (effect : Effect options prewarm s action next) : Sound next := by
  -- Before its workers start the call has none; then each of their moves keeps the account.
  cases effect with
  | pool action pool foreign stepped =>
    exact ⟨sound.toWorking.pool foreign stepped, sound.fanOut, sound.crew, sound.untouched,
      sound.rested⟩
  | nothing strategy idle =>
    obtain ⟨queue, workers, -⟩ := sound.untouched (.inl idle)
    have rested : s.queue = [] ∧ ∀ worker ∈ s.workers, worker = .finished :=
      ⟨queue, by simp [workers]⟩
    exact ⟨sound.toWorking.setPhase _, sound.fanOut, sound.crew, by simp, fun _ => rested⟩
  | asking strategy chosen idle =>
    exact ⟨sound.toWorking.setPhase _, sound.fanOut, sound.crew,
      fun _ => sound.untouched (.inl idle), by simp⟩
  | begun given strategy keys idle => exact sound.run (sound.untouched (.inl idle)) strategy keys
  | listed strategy keys listing =>
    exact sound.run (sound.untouched (.inr ⟨strategy, listing⟩)) strategy keys
  | refused strategy listing =>
    exact ⟨sound.toWorking.setPhase _, sound.fanOut, sound.crew, by simp, by simp⟩
  | more w key handles a h found given short =>
    exact sound.of_working found (by simp) (sound.toWorking.ask_next found given short) rfl rfl rfl
      (List.length_modify _ _ _)
  | warmed w key handles a h found given enough =>
    exact sound.of_working found (by simp) (sound.toWorking.warmed found given enough) rfl rfl rfl
      (List.length_modify _ _ _)
  | failed w key handles a error found failed =>
    exact sound.of_working found (by simp) (sound.toWorking.failed found failed) rfl rfl rfl
      (List.length_modify _ _ _)
  | taken w key rest found queue =>
    refine sound.of_working found (by simp) (sound.toWorking.start queue _ (fun f nothing => ?_)
      fun worker inside => mem_setWorker inside) rfl rfl rfl (List.length_modify _ _ _)
    have kept := perm_flatMap_setWorker f (.acquiring key [] s.pool.acquires.length) found
    rwa [nothing, List.nil_append] at kept
  | left w found queue =>
    exact sound.of_working found (by simp) (sound.toWorking.finish_of_queue_nil found queue) rfl rfl
      rfl (List.length_modify _ _ _)
  | fulfilled running done =>
    exact ⟨sound.toWorking.setPhase _, sound.fanOut, sound.crew, by simp,
      fun _ => ⟨sound.queue_eq_nil done, done⟩⟩

/-! ### The pool behind the workers -/

/-- Starting workers keeps what calls of `acquire` keep. -/
theorem startWorkers_kept {P : State κ τ → Prop} (turn : ∀ pool key, P pool → P (pool.acquire key))
    (start : P s.pool) (count : Nat) : P (s.startWorkers count).pool := by
  -- By induction on how many are started, with or without a key left.
  induction count generalizing s with
  | zero => exact start
  | succ count ih =>
    rw [startWorkers]
    refine ih ?_
    cases queue : s.queue with
    | nil =>
      simp only [take, queue]
      exact start
    | cons key rest =>
      simp only [take, queue, ask]
      exact turn s.pool key start

/-- So does all that `warm` does once it has the keys. -/
theorem run_kept {P : State κ τ → Prop} (turn : ∀ pool key, P pool → P (pool.acquire key))
    (start : P s.pool) (strategy : PrewarmStrategy κ) (keys : List κ) :
    P (s.run strategy keys).pool := by
  -- It starts workers, after assigning what no pool sees.
  simp only [run]
  refine startWorkers_kept turn ?_ _
  exact start

/-- What every step of the pool keeps, every step keeps. -/
theorem Effect.pool_kept {action : WarmAction κ τ} {P : State κ τ → Prop} (working : Working s)
    (effect : Effect options prewarm s action next)
    (kept : ∀ pool action next, pool.step options action = some next → P pool → P next)
    (start : P s.pool) : P next.pool := by
  -- Nothing happens to the pool but by its own steps.
  have asks (pool : State κ τ) (key : κ) (before : P pool) : P (pool.acquire key) :=
    kept pool (.acquire key) _ rfl before
  have releases (pool : State κ τ) (h : HandleId) (next : State κ τ)
      (stepped : pool.step options (.releaseHandle h) = some next) (before : P pool) : P next :=
    kept pool _ next stepped before
  cases effect with
  | pool action pool foreign stepped => exact kept _ _ _ stepped start
  | nothing | asking | refused | left | fulfilled => exact start
  | begun _ strategy keys | listed strategy keys => exact run_kept asks start strategy keys
  | more | taken => exact asks _ _ start
  | warmed w key handles a h found given =>
    exact releaseAll_kept options (working.issued (working.account_warmed found given)) releases
      start
  | failed w key handles a error found failed =>
    exact releaseAll_kept options (working.issued (working.account_failed found failed)) releases
      start

end Warming

end RefPool
