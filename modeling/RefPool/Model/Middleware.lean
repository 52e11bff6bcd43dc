import RefPool.Model.Step

/-! `TenantConnectionMiddleware`, on requests whose responses end whenever they like. -/

namespace RefPool

/-- Behavior when an incoming request lacks the configured tenant header. -/
inductive MissingTenantBehavior where
  | next
  | error
  deriving DecidableEq, Repr

/-- The options of the middleware. -/
structure TenantMiddlewareOptions where
  /-- Request header carrying the tenant key. -/
  header : Option String := none
  /-- What to do when the header is absent. -/
  onMissing : Option MissingTenantBehavior := none
  /-- Property on the request used to attach the acquired resource. -/
  requestProperty : Option String := none

/-- A header of a request: one value, or one for each time it was sent. -/
inductive HeaderValue where
  | one (value : String)
  | many (values : List String)
  deriving DecidableEq, Repr

/-- The events of a response that the middleware listens to. -/
inductive ResponseEvent where
  | finish
  | close
  deriving DecidableEq, Repr

/-- What `next` is called with, when it is called with an error. -/
inductive UseError where
  | missingHeader (header : String)
  | acquire (error : PoolError)
  deriving DecidableEq, Repr

/-- The text of the error the middleware raises itself. -/
def UseError.message : UseError → Option String
  | .missingHeader header => some ("Missing required tenant header \"" ++ header ++ "\"")
  | .acquire error => error.message

/-- What the middleware attaches to a request. -/
inductive RequestProperty (τ : Type) where
  | resource (resource : τ)
  | tenant (tenantId : String)

/-- Where a call of `use` stands. -/
inductive UsePhase where
  /-- It returned without going for a resource. -/
  | skipped
  /-- It awaits a call of `acquire`. -/
  | acquiring (acquire : AcquireId)
  /-- The call of `acquire` rejected. -/
  | failed
  /-- The resource of a handle is attached to the request. -/
  | attached (handle : HandleId)
  deriving DecidableEq, Repr

/-- A request on its way through `use`, with its response. -/
structure TenantRequest (τ : Type) where
  phase : UsePhase
  /-- The tenant that was acquired for. -/
  tenantId : Option String
  properties : OrderedMap String (RequestProperty τ)
  /-- The calls of `next` so far. -/
  nextCalls : List (Option UseError)
  /-- The response events on which `release` is registered. -/
  listeners : List ResponseEvent
  /-- The response events that have fired. -/
  ended : List ResponseEvent
  /-- The flag of the `release` closure. -/
  released : Bool
  /-- How often the closure has called the release of the handle. -/
  releases : Nat

/-- A pool with the requests that went through the middleware. -/
structure TenantServer (τ : Type) where
  pool : State String τ
  requests : List (TenantRequest τ)

/-- What happens next to a pool behind the middleware. -/
inductive TenantAction (τ : Type) where
  /-- Anything that happens to the pool by itself or through others. -/
  | pool (action : Action String τ)
  /-- A request with these headers arrives, and `use` is called. -/
  | use (headers : OrderedMap String HeaderValue)
  /-- `use` continues after its call of `acquire` has settled. -/
  | settled (request : Nat)
  /-- The response of a request emits an event. -/
  | emit (request : Nat) (event : ResponseEvent)

namespace TenantMiddlewareOptions

/-- The header looked up, in the lower case that header names arrive in. -/
def headerName (options : TenantMiddlewareOptions) : String :=
  (options.header.getD "x-tenant-id").toLower

/-- The property the resource is attached as. -/
def property (options : TenantMiddlewareOptions) : String :=
  options.requestProperty.getD "tenantResource"

/-- The tenant a request names: an empty name counts as none. -/
def tenantId (options : TenantMiddlewareOptions) (headers : OrderedMap String HeaderValue) :
    Option String :=
  -- Of a header sent several times the first value counts.
  let raw := match headers.get? options.headerName with
    | none => none
    | some (.one value) => some value
    | some (.many values) => values.head?
  raw.filter fun tenantId => !tenantId.isEmpty

end TenantMiddlewareOptions

namespace TenantServer

variable {τ : Type}

/-- A server on a new pool. -/
def init (pool : PoolOptions) : TenantServer τ := ⟨.init pool, []⟩

/-- Whether a handle is out to a call of `use`, which keeps it to itself. -/
def owns (s : TenantServer τ) (h : HandleId) : Bool :=
  s.requests.any fun request =>
    match request.phase with
    | .attached handle => handle = h
    | .acquiring a => s.pool.acquires[a]?.any fun acquire => acquire.phase = .fulfilled h
    | .skipped | .failed => false

/-- A request that `use` has nothing to acquire for. -/
def passOn (error : Option UseError) : TenantRequest τ :=
  { phase := .skipped, tenantId := none, properties := .empty, nextCalls := [error]
    listeners := [], ended := [], released := false, releases := 0 }

/-- `use` up to its await. -/
def use (options : TenantMiddlewareOptions) (s : TenantServer τ)
    (headers : OrderedMap String HeaderValue) : TenantServer τ :=
  match options.tenantId headers with
  | none =>
    match options.onMissing.getD .next with
    | .error =>
      { s with
        requests := s.requests ++ [passOn (some (.missingHeader options.headerName))] }
    | .next => { s with requests := s.requests ++ [passOn none] }
  | some tenantId =>
    -- The service passes the call on to its pool.
    { pool := s.pool.acquire tenantId
      requests := s.requests ++
        [{ phase := .acquiring s.pool.acquires.length, tenantId := some tenantId
           properties := .empty, nextCalls := [], listeners := [], ended := []
           released := false, releases := 0 }] }

/-- `use` after its call of `acquire` has settled. -/
def settled (options : TenantMiddlewareOptions) (s : TenantServer τ) (r : Nat)
    (tenantId : String) : Except PoolError (HandleId × τ) → TenantServer τ
  | .error error =>
    { s with
      requests := s.requests.modify r fun request =>
        { request with
          phase := .failed, nextCalls := request.nextCalls ++ [some (.acquire error)] } }
  | .ok (h, resource) =>
    -- Whether the response has ended in the meantime is not asked.
    { s with
      requests := s.requests.modify r fun request =>
        { request with
          phase := .attached h
          listeners := [.finish, .close]
          properties := (request.properties.set options.property (.resource resource)).set
            (options.property ++ "Key") (.tenant tenantId)
          nextCalls := request.nextCalls ++ [none] } }

/-- The `release` closure: only its first call releases the handle. -/
def release (s : TenantServer τ) (r : Nat) (request : TenantRequest τ) (h : HandleId)
    (handle : Handle) : TenantServer τ :=
  if request.released then s
  else
    { pool := s.pool.releaseHandle h handle
      requests := s.requests.modify r fun request =>
        { request with released := true, releases := request.releases + 1 } }

/-- A response event: the listeners registered by then are called. -/
def emit (s : TenantServer τ) (r : Nat) (request : TenantRequest τ) (event : ResponseEvent) :
    TenantServer τ :=
  let s :=
    { s with
      requests := s.requests.modify r fun request =>
        { request with ended := request.ended ++ [event] } }
  -- An event without a listener is lost.
  if event ∈ request.listeners then
    match request.phase with
    | .attached h =>
      match s.pool.handles[h]? with
      | none => s
      | some handle => s.release r request h handle
    | .skipped | .acquiring _ | .failed => s
  else s

/-- What the promise returned by a call of `acquire` has settled with. -/
def outcome (pool : State String τ) (acquire : Acquire String) :
    Option (Except PoolError (HandleId × τ)) :=
  match acquire.phase with
  | .fulfilled h =>
    -- The handle carries the resource of its entry.
    (pool.handles[h]?).bind fun handle =>
      (pool.heap[handle.entry]?).map fun entry => .ok (h, entry.resource)
  | .rejected error => some (.error error)
  | _ => none

/-- The effect of an action, where it can happen. -/
def step (options : PoolOptions) (middleware : TenantMiddlewareOptions) (s : TenantServer τ) :
    TenantAction τ → Option (TenantServer τ)
  | .pool action =>
    -- Nobody else has the handles that the middleware was given.
    if (match action with
      | .releaseHandle h => s.owns h
      | _ => false) then none
    else (s.pool.step options action).map fun pool => { s with pool }
  | .use headers => some (s.use middleware headers)
  | .settled r =>
    (s.requests[r]?).bind fun request =>
      match request.phase with
      | .acquiring a =>
        (s.pool.acquires[a]?).bind fun acquire =>
          (outcome s.pool acquire).map (s.settled middleware r acquire.key)
      | .skipped | .failed | .attached _ => none
  | .emit r event => (s.requests[r]?).map fun request => s.emit r request event

end TenantServer

end RefPool
