import RefPool.Model.Middleware
import RefPool.Proofs.References

/-! A request gives its handle back with its response, unless the response ends too early. -/

namespace RefPool

/-- The handle attached to a request. -/
def UsePhase.handle : UsePhase → Option HandleId
  | .attached h => some h
  | .skipped | .acquiring _ | .failed => none

namespace TenantServer

variable {τ : Type} {options : PoolOptions} {middleware : TenantMiddlewareOptions}
  {s next : TenantServer τ}

/-- Every request with a handle whose response has ended has released it, once. -/
def ReleasedOnce (s : TenantServer τ) : Prop :=
  ∀ (r : Nat) request h, s.requests[r]? = some request → request.phase = .attached h →
    request.ended ≠ [] → request.releases = 1 ∧
      ∃ handle, s.pool.handles[h]? = some handle ∧ handle.released = true

/-- Whether every request has released its handle in time can be checked. -/
instance (s : TenantServer τ) : Decidable s.ReleasedOnce :=
  decidable_of_iff
    (∀ request ∈ s.requests, ∀ h ∈ request.phase.handle, request.ended ≠ [] →
      request.releases = 1 ∧ ∃ handle ∈ s.pool.handles[h]?, handle.released = true)
    (by
      constructor
      · intro all r request h found phase ended
        exact all request (List.mem_of_getElem? found) h (by simp [phase, UsePhase.handle]) ended
      · intro all request inside h phase ended
        obtain ⟨r, found⟩ := List.mem_iff_getElem?.mp inside
        refine all r request h found ?_ ended
        cases reached : request.phase <;> simp_all [UsePhase.handle])

/-- Whether `use` is about to be handed a handle for a request. -/
def isServed (s : TenantServer τ) (request : TenantRequest τ) : Bool :=
  match request.phase with
  | .acquiring a => s.pool.acquires[a]?.any fun acquire =>
      match outcome s.pool acquire with
      | some (.ok _) => true
      | some (.error _) | none => false
  | .skipped | .failed | .attached _ => false

/-- `use` is handed a handle before the response of its request ends. -/
def InTime (s : TenantServer τ) : TenantAction τ → Prop
  | .settled r => ∀ request ∈ s.requests[r]?, s.isServed request = true → request.ended = []
  | .pool _ | .use _ | .emit _ _ => True

/-- Whether `use` is handed its handle in time can be checked. -/
instance (s : TenantServer τ) (action : TenantAction τ) : Decidable (s.InTime action) := by
  induction action using TenantAction.casesOn <;> unfold InTime <;> infer_instance

/-- The state after an event of a response that released nothing. -/
def ending (s : TenantServer τ) (r : Nat) (event : ResponseEvent) : TenantServer τ :=
  { s with
    requests := s.requests.modify r fun request =>
      { request with ended := request.ended ++ [event] } }

/-- The state after an event of a response that released its handle. -/
def returning (s : TenantServer τ) (r : Nat) (event : ResponseEvent) (h : HandleId)
    (handle : Handle) : TenantServer τ :=
  { pool := s.pool.releaseHandle h handle
    requests := s.requests.modify r fun request =>
      { request with
        ended := request.ended ++ [event], released := true, releases := request.releases + 1 } }

/-- The outcomes of a step of the server. -/
inductive Effect (options : PoolOptions) (middleware : TenantMiddlewareOptions)
    (s : TenantServer τ) : TenantAction τ → TenantServer τ → Prop
  /-- The pool moves on by itself or through others. -/
  | pool (action : Action String τ) (next : State String τ)
      (stepped : s.pool.step options action = some next) :
      Effect options middleware s (.pool action) { s with pool := next }
  /-- A request without a tenant is passed on. -/
  | skipped (headers : OrderedMap String HeaderValue) (error : Option UseError) :
      Effect options middleware s (.use headers)
        { s with requests := s.requests ++ [passOn error] }
  /-- A request with a tenant calls `acquire`. -/
  | started (headers : OrderedMap String HeaderValue) (tenantId : String) :
      Effect options middleware s (.use headers)
        { pool := s.pool.acquire tenantId
          requests := s.requests ++
            [{ phase := .acquiring s.pool.acquires.length, tenantId := some tenantId
               properties := .empty, nextCalls := [], listeners := [], ended := []
               released := false, releases := 0 }] }
  /-- The call of `acquire` rejected. -/
  | failed (r : Nat) (request : TenantRequest τ) (a : AcquireId) (tenantId : String)
      (error : PoolError) (found : s.requests[r]? = some request)
      (phase : request.phase = .acquiring a) (unserved : s.isServed request = false) :
      Effect options middleware s (.settled r) (s.settled middleware r tenantId (.error error))
  /-- The call of `acquire` fulfilled with a handle. -/
  | served (r : Nat) (request : TenantRequest τ) (a : AcquireId) (tenantId : String)
      (h : HandleId) (handle : Handle) (resource : τ) (found : s.requests[r]? = some request)
      (phase : request.phase = .acquiring a) (served : s.isServed request = true)
      (issued : s.pool.handles[h]? = some handle) :
      Effect options middleware s (.settled r)
        (s.settled middleware r tenantId (.ok (h, resource)))
  /-- A response event finds no closure, or one that has released already. -/
  | ended (r : Nat) (request : TenantRequest τ) (event : ResponseEvent)
      (found : s.requests[r]? = some request)
      (spent : ∀ h, request.phase = .attached h → event ∈ request.listeners →
        s.pool.handles[h]?.isSome = true → request.released = true) :
      Effect options middleware s (.emit r event) (s.ending r event)
  /-- A response event releases the handle of its request. -/
  | returned (r : Nat) (request : TenantRequest τ) (event : ResponseEvent) (h : HandleId)
      (handle : Handle) (found : s.requests[r]? = some request)
      (phase : request.phase = .attached h) (issued : s.pool.handles[h]? = some handle)
      (holding : request.released = false) :
      Effect options middleware s (.emit r event) (s.returning r event h handle)

/-- The reaction of `use` to the settled `acquire` has one of the effects. -/
theorem effect_of_settled {r : Nat} (stepped : s.step options middleware (.settled r) = some next) :
    Effect options middleware s (.settled r) next := by
  -- The request is still acquiring, and what it is handed settles how it goes on.
  simp only [step, Option.bind_eq_some_iff] at stepped
  obtain ⟨request, found, stepped⟩ := stepped
  cases phase : request.phase with
  | acquiring a =>
    simp only [phase, Option.bind_eq_some_iff, Option.map_eq_some_iff] at stepped
    obtain ⟨acquire, called, result, settled, rfl⟩ := stepped
    have serves : s.isServed request = match result with
        | .ok _ => true
        | .error _ => false := by
      simp only [isServed, phase, called, Option.any_some, settled]
      cases result <;> rfl
    cases result with
    | error error => exact .failed r request a acquire.key error found phase serves
    | ok answer =>
      -- The outcome of `acquire` names a handle that has been issued.
      obtain ⟨h, resource⟩ := answer
      have issued : ∃ handle, s.pool.handles[h]? = some handle := by
        unfold outcome at settled
        split at settled
        · obtain ⟨handle, issued, carried⟩ := Option.bind_eq_some_iff.mp settled
          obtain ⟨entry, -, named⟩ := Option.map_eq_some_iff.mp carried
          cases named
          exact ⟨handle, issued⟩
        · cases settled
        · cases settled
      obtain ⟨handle, issued⟩ := issued
      exact .served r request a acquire.key h handle resource found phase serves issued
  | skipped | failed | attached => simp [phase] at stepped

/-- A response event has one of the effects. -/
theorem effect_of_emit {r : Nat} {event : ResponseEvent}
    (stepped : s.step options middleware (.emit r event) = some next) :
    Effect options middleware s (.emit r event) next := by
  -- The event is heard by the closure of the request, or by nobody.
  obtain ⟨request, found, rfl⟩ := Option.map_eq_some_iff.mp stepped
  unfold emit
  by_cases heard : event ∈ request.listeners
  · cases phase : request.phase with
    | attached h =>
      cases issued : s.pool.handles[h]? with
      | none =>
        simp only [heard, issued, if_true]
        refine .ended r request event found fun other same _ present => ?_
        cases phase.symm.trans same
        simp [issued] at present
      | some handle =>
        simp only [heard, issued, if_true]
        by_cases spent : request.released = true
        -- The closure has released already, and does nothing.
        · simp only [release, spent, if_true]
          exact .ended r request event found fun _ _ _ _ => spent
        -- It releases now: first the flag, then the handle of the pool.
        · have once : ({ s with requests := s.requests.modify r fun request =>
              { request with ended := request.ended ++ [event] } } : TenantServer τ).release r
                request h handle = s.returning r event h handle := by
            simp [release, spent, returning, List.modify_modify_eq, Function.comp_def]
          rw [once]
          exact .returned r request event h handle found phase issued (by simpa using spent)
    | skipped | acquiring | failed =>
      simp only [heard, if_true]
      exact .ended r request event found fun h same => by simp [phase] at same
  · simp only [heard, if_false]
    exact .ended r request event found fun _ _ listening => absurd listening heard

/-- Every step of the server has one of the effects. -/
theorem effect_of_step {action : TenantAction τ}
    (stepped : s.step options middleware action = some next) :
    Effect options middleware s action next := by
  -- The steps correspond to the effects one by one.
  cases action with
  | pool action =>
    simp only [step, Option.ite_none_left_eq_some] at stepped
    obtain ⟨pool, moved, rfl⟩ := Option.map_eq_some_iff.mp stepped.2
    exact .pool action pool moved
  | use headers =>
    obtain rfl := Option.some.inj stepped
    unfold use
    split
    · split
      · exact .skipped headers _
      · exact .skipped headers _
    · exact .started headers _
  | settled r => exact effect_of_settled stepped
  | emit r event => exact effect_of_emit stepped

/-- The pool of a server moves by its own steps only. -/
theorem Effect.pool_step {action : TenantAction τ}
    (effect : Effect options middleware s action next) :
    next.pool = s.pool ∨ ∃ own : Action String τ, s.pool.step options own = some next.pool ∧
      ((∀ key, action ≠ .pool (.release key)) → State.HandlesOnly s.pool own) := by
  -- Starting a request calls `acquire`, and ending one may release its handle.
  cases effect with
  | pool action next stepped =>
    refine .inr ⟨action, stepped, fun never => ?_⟩
    cases action <;> simp_all [State.HandlesOnly]
  | started headers tenantId => exact .inr ⟨.acquire tenantId, rfl, fun _ => trivial⟩
  | returned r request event h handle found phase issued =>
    exact .inr ⟨.releaseHandle h, by simp [State.step, issued, returning], fun _ => trivial⟩
  | skipped | failed | served | ended => exact .inl rfl

/-- What a request has done with its handle so far. -/
structure Kept (pool : State String τ) (request : TenantRequest τ) : Prop where
  /-- The closure has called the release once if its flag is up, and never otherwise. -/
  counted : request.releases = if request.released then 1 else 0
  /-- A request with a handle has its closure registered on both events. -/
  listening : ∀ h, request.phase = .attached h →
    request.listeners = [.finish, .close] ∧ ∃ handle, pool.handles[h]? = some handle ∧
      (request.released = true → handle.released = true)
  /-- Without a handle the closure has not been made. -/
  unmade : (∀ h, request.phase ≠ .attached h) → request.released = false

/-- The invariant of the server: its pool's, and what the requests have done. -/
structure Sound (s : TenantServer τ) : Prop where
  core : Core s.pool
  kept : ∀ (r : Nat) request, s.requests[r]? = some request → Kept s.pool request

/-- A new server has no requests. -/
theorem sound_init (options : PoolOptions) : Sound (init options : TenantServer τ) where
  -- There are no requests.
  core := State.core_init options
  kept := by simp [init]

/-- A step of the pool keeps what a request has done. -/
theorem Kept.pool {pool after : State String τ} {request : TenantRequest τ}
    {action : Action String τ} (kept : Kept pool request) (core : Core pool)
    (stepped : pool.step options action = some after) : Kept after request where
  -- The pool moves no request, and keeps the flags of its handles.
  counted := kept.counted
  listening := by
    intro h phase
    obtain ⟨listeners, handle, issued, released⟩ := kept.listening h phase
    obtain ⟨later, present, -, still⟩ := (State.step_effect stepped).handle_kept core issued
    exact ⟨listeners, later, present, fun flag => still (released flag)⟩
  unmade := kept.unmade

/-- Every step keeps the invariant of the server. -/
theorem Effect.sound {action : TenantAction τ} (sound : Sound s)
    (effect : Effect options middleware s action next) : Sound next := by
  -- Only the request that the step is about changes, and the pool takes a step at most.
  obtain ⟨core, kept⟩ := sound
  cases effect with
  | pool action next stepped =>
    exact ⟨State.core_step core stepped, fun r request found =>
      (kept r request found).pool core stepped⟩
  | skipped headers error =>
    refine ⟨core, fun r request found => ?_⟩
    rcases Arena.getElem?_push_cases found with ⟨-, rfl⟩ | before
    · exact ⟨rfl, by simp [passOn], fun _ => rfl⟩
    · exact kept r request before
  | started headers tenantId =>
    have stepped : s.pool.step options (.acquire tenantId) = some (s.pool.acquire tenantId) := rfl
    refine ⟨State.core_step core stepped, fun r request found => ?_⟩
    rcases Arena.getElem?_push_cases found with ⟨-, rfl⟩ | before
    · exact ⟨rfl, by simp, fun _ => rfl⟩
    · exact (kept r request before).pool core stepped
  -- Without a handle the closure is never made.
  | failed r request a tenantId error found phase =>
    refine ⟨core, fun i other read => ?_⟩
    rcases Arena.getElem?_modify_cases read with ⟨rfl, old, before, rfl⟩ | ⟨-, before⟩
    · cases found.symm.trans before
      have unmade := (kept r request found).unmade (by simp [phase])
      exact ⟨(kept r request found).counted, by simp, fun _ => unmade⟩
    · exact kept i other before
  -- The closure is made with its flag down, and registered on both events.
  | served r request a tenantId h handle resource found phase _ issued =>
    refine ⟨core, fun i other read => ?_⟩
    rcases Arena.getElem?_modify_cases read with ⟨rfl, old, before, rfl⟩ | ⟨-, before⟩
    · cases found.symm.trans before
      have unmade := (kept r request found).unmade (by simp [phase])
      refine ⟨(kept r request found).counted, fun h' same => ?_, fun _ => unmade⟩
      cases same
      exact ⟨rfl, handle, issued, by simp [unmade]⟩
    · exact kept i other before
  | ended r request event found =>
    refine ⟨core, fun i other read => ?_⟩
    rcases Arena.getElem?_modify_cases read with ⟨rfl, old, before, rfl⟩ | ⟨-, before⟩
    · exact ⟨(kept r old before).counted, (kept r old before).listening,
        (kept r old before).unmade⟩
    · exact kept i other before
  -- The flag goes up with the one release.
  | returned r request event h handle found phase issued holding =>
    have stepped : s.pool.step options (.releaseHandle h) =
        some (s.pool.releaseHandle h handle) := by simp [State.step, issued]
    refine ⟨State.core_step core stepped, fun i other read => ?_⟩
    rcases Arena.getElem?_modify_cases read with ⟨rfl, old, before, rfl⟩ | ⟨-, before⟩
    · cases found.symm.trans before
      obtain ⟨counted, listening, -⟩ := kept r request found
      refine ⟨by simp [counted, holding], fun h' same => ?_,
        fun never => absurd phase (never h)⟩
      cases phase.symm.trans same
      obtain ⟨after, present, released⟩ := State.released_releaseHandle issued
      exact ⟨(listening h phase).1, after, present, fun _ => released⟩
    · exact (kept i other before).pool core stepped

/-- A request other than the one that moved keeps to its promise. -/
theorem released_elsewhere {pool after : State String τ} {h : HandleId} (core : Core pool)
    (moved : after = pool ∨ ∃ action : Action String τ, pool.step options action = some after)
    (released : ∃ handle, pool.handles[h]? = some handle ∧ handle.released = true) :
    ∃ handle, after.handles[h]? = some handle ∧ handle.released = true := by
  -- The handle keeps its flag, whatever step the pool takes.
  obtain ⟨handle, issued, flag⟩ := released
  rcases moved with rfl | ⟨action, stepped⟩
  · exact ⟨handle, issued, flag⟩
  · obtain ⟨later, present, -, still⟩ := (State.step_effect stepped).handle_kept core issued
    exact ⟨later, present, still flag⟩

/-- A step keeps every request to its promise exactly when `use` is handed its handle in time. -/
theorem Effect.releasedOnce_iff_inTime {action : TenantAction τ} (sound : Sound s)
    (effect : Effect options middleware s action next) (kept : ReleasedOnce s) :
    ReleasedOnce next ↔ s.InTime action := by
  -- Only a request that is handed its handle can break the promise.
  have easy {p q : Prop} (left : p) (right : q) : p ↔ q := iff_of_true left right
  have moved : next.pool = s.pool ∨
      ∃ own : Action String τ, s.pool.step options own = some next.pool := by
    rcases effect.pool_step with same | ⟨own, stepped, -⟩
    · exact .inl same
    · exact .inr ⟨own, stepped⟩
  have elsewhere {r : Nat} {request : TenantRequest τ} {h : HandleId}
      (found : s.requests[r]? = some request) (phase : request.phase = .attached h)
      (ended : request.ended ≠ []) : request.releases = 1 ∧
        ∃ handle, next.pool.handles[h]? = some handle ∧ handle.released = true := by
    obtain ⟨once, released⟩ := kept r request h found phase ended
    exact ⟨once, released_elsewhere sound.core moved released⟩
  cases effect with
  | pool action next stepped => exact easy (fun r request h => elsewhere) trivial
  | skipped headers error | started headers tenantId =>
    refine easy (fun r request h read phase ended => ?_) trivial
    rcases Arena.getElem?_push_cases read with ⟨-, rfl⟩ | before
    · simp [passOn] at phase
    · exact elsewhere before phase ended
  -- A failed request has no handle to release.
  | failed r request a tenantId error found phase unserved =>
    refine easy (fun i other h read attached ended => ?_) ?_
    · rcases Arena.getElem?_modify_cases read with ⟨rfl, old, before, rfl⟩ | ⟨-, before⟩
      · simp at attached
      · exact elsewhere before attached ended
    · simp [InTime, found, unserved]
  | served r request a tenantId h handle resource found phase served issued =>
    -- A closure registered after the end of the response is never called.
    have unreleased : request.releases = 0 := by
      obtain ⟨counted, -, unmade⟩ := sound.kept r request found
      rw [counted, unmade (by simp [phase])]
      rfl
    have inTime : s.InTime (.settled r : TenantAction τ) ↔ request.ended = [] := by
      simp [InTime, found, served]
    rw [inTime]
    constructor
    · intro after
      by_contra ended
      obtain ⟨once, -⟩ := after r _ h (Arena.getElem?_modify_self _ found) rfl ended
      simp [unreleased] at once
    · intro unended i other h' read attached ended
      rcases Arena.getElem?_modify_cases read with ⟨rfl, old, before, rfl⟩ | ⟨-, before⟩
      · cases found.symm.trans before
        exact absurd unended ended
      · exact elsewhere before attached ended
  -- The closure has run on an earlier event of the response.
  | ended r request event found spent =>
    refine easy (fun i other h read attached ended => ?_) trivial
    rcases Arena.getElem?_modify_cases read with ⟨rfl, old, before, rfl⟩ | ⟨-, before⟩
    · cases found.symm.trans before
      obtain ⟨counted, listening, -⟩ := sound.kept r request found
      obtain ⟨listeners, handle, issued, released⟩ := listening h attached
      have flag : request.released = true := spent h attached
        (by cases event <;> simp [listeners]) (by simp [issued])
      exact ⟨by simp [counted, flag], handle, issued, released flag⟩
    · exact elsewhere before attached ended
  -- The closure runs now, for the first time.
  | returned r request event h handle found phase issued holding =>
    refine easy (fun i other h' read attached ended => ?_) trivial
    rcases Arena.getElem?_modify_cases read with ⟨rfl, old, before, rfl⟩ | ⟨-, before⟩
    · cases found.symm.trans before
      cases phase.symm.trans attached
      have counted := (sound.kept r request found).counted
      exact ⟨by simp [counted, holding], State.released_releaseHandle issued⟩
    · exact elsewhere before attached ended

/-- Whether a handle belongs to a request whose response has ended. -/
def isOver (s : TenantServer τ) (h : HandleId) : Bool :=
  s.requests.any fun request => request.phase = .attached h && !request.ended.isEmpty

/-- The references of an entry that nobody counts on any longer are gone. -/
def ReferencesReturned (s : TenantServer τ) : Prop :=
  ∀ (e : Nat) entry, s.pool.heap[e]? = some entry → entry.disposed = false →
    entry.refCount = (List.range s.pool.handles.length).countP fun h =>
      !s.isOver h && (s.pool.handles[h]?).any fun handle =>
        !handle.released && decide (handle.entry = e)

/-- Nobody drops a reference by its key. -/
def HandlesOnly (_ : TenantServer τ) : TenantAction τ → Prop
  | .pool (.release _) => False
  | _ => True

/-- Whether an action drops a reference by its key can be checked. -/
instance (s : TenantServer τ) (action : TenantAction τ) : Decidable (s.HandlesOnly action) := by
  unfold HandlesOnly
  split <;> infer_instance

/-- Exact reference counts leave out the requests that have released their handles. -/
theorem ReleasedOnce.referencesReturned (released : ReleasedOnce s)
    (counted : Counted (· = ·) s.pool.heap s.pool.handles) : ReferencesReturned s := by
  -- The references of an entry are the handles that are out.
  intro e entry found undisposed
  rw [counted.counts e entry found undisposed, outstanding, ← Arena.countP_range]
  refine List.countP_congr fun h _ => ?_
  cases issued : s.pool.handles[h]? with
  | none => simp
  | some handle =>
    -- A handle of a request that is over has been released, so it was not counted anyway.
    by_cases spent : s.isOver h = true
    · obtain ⟨request, inside, ended⟩ := List.any_eq_true.mp spent
      obtain ⟨r, read⟩ := List.mem_iff_getElem?.mp inside
      simp only [Bool.and_eq_true, decide_eq_true_eq, Bool.not_eq_true',
        List.isEmpty_eq_false_iff] at ended
      obtain ⟨-, other, present, flag⟩ := released r request h read ended.1 ended.2
      cases issued.symm.trans present
      simp [flag]
    · simp [spent]

/--
Every handle is released once with its response exactly when `use` is always handed it in time.

Where that holds and nobody releases by key, the ended requests count in no `refCount`.
-/
theorem releasedOnce_iff (options : PoolOptions) (middleware : TenantMiddlewareOptions)
    (actions : List (TenantAction τ)) :
    (Runs.Throughout (step options middleware) ReleasedOnce (init options) actions ↔
      Runs.Guarded (step options middleware) InTime (init options) actions) ∧
    (Runs.Guarded (step options middleware) (fun s a => s.InTime a ∧ s.HandlesOnly a)
        (init options) actions →
      Runs.Throughout (step options middleware) ReferencesReturned (init options) actions) := by
  have start : ReleasedOnce (init options : TenantServer τ) := by simp [ReleasedOnce, init]
  have stays (s : TenantServer τ) action next (sound : Sound s)
      (stepped : s.step options middleware action = some next) : Sound next :=
    (effect_of_step stepped).sound sound
  refine ⟨⟨fun all => ?_, fun guarded => ?_⟩, fun guarded => ?_⟩
  · exact Runs.Throughout.guarded stays
      (fun s action next sound kept stepped after =>
        ((effect_of_step stepped).releasedOnce_iff_inTime sound kept).mp after)
      (sound_init options) all
  · refine (guarded.throughout (fun s => Sound s ∧ ReleasedOnce s) ?_
      ⟨sound_init options, start⟩).mono fun s => And.right
    intro s action next kept inTime stepped
    exact ⟨stays s action next kept.1 stepped,
      ((effect_of_step stepped).releasedOnce_iff_inTime kept.1 kept.2).mpr inTime⟩
  · -- The pool behind the server makes a run of its own, in which references are exact.
    refine (guarded.throughout (fun s => (Sound s ∧ ReleasedOnce s) ∧
      Counted (· = ·) s.pool.heap s.pool.handles) ?_
      ⟨⟨sound_init options, start⟩, State.counted_init options⟩).mono fun s kept =>
        kept.1.2.referencesReturned kept.2
    intro s action next kept met stepped
    have effect := effect_of_step stepped
    refine ⟨⟨stays s action next kept.1.1 stepped,
      (effect.releasedOnce_iff_inTime kept.1.1 kept.1.2).mpr met.1⟩, ?_⟩
    rcases effect.pool_step with same | ⟨own, moved, handlesOnly⟩
    · exact same ▸ kept.2
    · refine (State.step_effect moved).counted comparison_eq kept.1.1.core (.inl ?_) kept.2
      refine handlesOnly fun key released => ?_
      simpa [released, HandlesOnly] using met.2

/-- The pool steps by which the first acquire creates resource 70 and fulfils. -/
def creation : List (TenantAction Nat) :=
  [.pool (.obtain 0), .pool (.create 0 .threw), .pool (.factoryCalled 0),
    .pool (.factorySettled 0 (some 70)), .pool (.execSettled 0 (some 70)), .pool (.deliver 0)]

/-- A request of one tenant. -/
def tenantHeaders : OrderedMap String HeaderValue :=
  OrderedMap.empty.set "x-tenant-id" (.one "a")

/-- A run in which two requests of a tenant share its resource, and both responses end. -/
theorem releasedOnce_iff_shared :
    Runs.Throughout (step { max := 1 } {}) ReferencesReturned (init { max := 1 })
      ([.use tenantHeaders] ++ creation ++ [.settled 0, .use tenantHeaders, .settled 1,
        .emit 0 .finish, .emit 0 .close, .emit 1 .close]) :=
  -- The responses end after their acquires have settled.
  (releasedOnce_iff { max := 1 } {} _).2 (by decide +kernel)

/-- A client that disconnects while its acquire creates the resource leaves the handle out. -/
theorem releasedOnce_disconnected :
    ¬Runs.Throughout (step { max := 1 } {}) ReleasedOnce (init { max := 1 })
      ([.use tenantHeaders, .emit 0 .close] ++ creation ++ [.settled 0]) := by
  -- The response closes before its acquire settles, so that nobody hears of it.
  decide +kernel

end TenantServer

end RefPool
