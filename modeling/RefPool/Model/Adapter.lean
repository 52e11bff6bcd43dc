import RefPool.Model.ProtectedPool

/-! The factories and `dispose` functions of the adapters, by the clients they make and close. -/

namespace RefPool

/-- A client that an adapter has constructed. -/
abbrev ClientId := Nat

/-- What an adapter does besides constructing a client for a key and closing it. -/
structure Adapter where
  /-- The factory opens the client before it resolves, and closes it where that fails. -/
  opens : Bool
  /-- The resource is not the client itself, which `dispose` looks up in a map of its own. -/
  wraps : Bool
  deriving DecidableEq

namespace Adapter

/-- `$connect` opens a `PrismaClient`, and `$disconnect` closes it. -/
def createPrismaPool : Adapter := { opens := true, wraps := false }

/-- `initialize` opens a `DataSource`, and `destroy` closes it. -/
def createTypeOrmPool : Adapter := { opens := true, wraps := false }

/-- `drizzle` wraps a `Pool` in a database, and `end` closes the `Pool`. -/
def createDrizzlePool : Adapter := { opens := false, wraps := true }

/-- `destroy` closes a `Knex` instance. -/
def createKnexPool : Adapter := { opens := false, wraps := false }

/-- `end` closes a `Pool`. -/
def createPgPool : Adapter := { opens := false, wraps := false }

end Adapter

/-- Where a call of an adapter's factory stands. -/
inductive Making where
  /-- It awaits the configuration of the key, or the client itself. -/
  | configuring
  /-- It opens the client that it has constructed. -/
  | opening (client : ClientId)
  /-- The client could not be opened or wrapped, and it awaits that it is closed. -/
  | closing (client : ClientId)
  /-- It resolved with the client, or with what wraps it. -/
  | resolved (client : ClientId)
  /-- It rejected, after a client had been constructed or before. -/
  | rejected (client : Option ClientId)
  deriving DecidableEq

/-- A pool that an adapter has created, with the clients that the adapter deals with. -/
structure AdaptedPool (κ : Type) where
  system : ProtectedPool κ ClientId
  /-- The calls of the factory, in the order in which the pool makes them. -/
  makings : List Making
  /-- The clients that were constructed, by the keys that they were constructed for. -/
  clients : List κ
  /-- The clients whose wrappers the map of the adapter knows. -/
  wrapped : List ClientId
  /-- The clients that were closed, once for each time. -/
  closes : List ClientId

/-- How the synchronous part of a factory went, once the configuration had settled. -/
inductive Construction where
  /-- The configuration was rejected, or the client could not be constructed. -/
  | failed
  /-- The client was constructed, and wrapped where the adapter wraps it. -/
  | made
  /-- The client was constructed, but could not be wrapped. -/
  | unwrapped
  deriving DecidableEq

/-- What runs next in a pool that an adapter has created. -/
inductive AdapterAction (κ : Type) where
  /-- A step of the pool or of its breakers. -/
  | system (action : ProtectedAction κ ClientId)
  /-- The configuration, or the client itself, has settled. -/
  | constructed (call : FactoryId) (construction : Construction)
  /-- The client is open, or could not be opened. -/
  | opened (call : FactoryId) (succeeded : Bool)
  /-- The client that could not be opened is closed. -/
  | closed (call : FactoryId)

/-- Whether a step settles a call of the factory, as only the adapter does. -/
def ProtectedAction.ofFactory {κ τ : Type} : ProtectedAction κ τ → Bool
  | .pool (.factorySettled _ _) => true
  | _ => false

/-- The key that a call of the factory is made for. -/
def State.callKey {κ τ : Type} (s : State κ τ) (c : FactoryId) : Option κ :=
  (s.factoryCalls[c]?).bind fun call => (s.execs[call.exec]?).map Exec.key

namespace AdaptedPool

variable {κ : Type} [DecidableEq κ]

/-- A new pool, whose adapter has constructed nothing. -/
def init (options : PoolOptions) : AdaptedPool κ where
  system := .init options
  makings := []
  clients := []
  wrapped := []
  closes := []

omit [DecidableEq κ] in
/-- `dispose` closes the client, if it finds one. -/
def dispose (adapter : Adapter) (s : AdaptedPool κ) (client : ClientId) : AdaptedPool κ :=
  if adapter.wraps then
    -- The map forgets the wrapper before the client is closed.
    if client ∈ s.wrapped then
      { s with wrapped := s.wrapped.erase client, closes := s.closes ++ [client] }
    else s
  else { s with closes := s.closes ++ [client] }

omit [DecidableEq κ] in
/-- The calls of the factory and of `dispose` that the pool has made in a step. -/
def follow (adapter : Adapter) (s : AdaptedPool κ) (next : ProtectedPool κ ClientId) :
    AdaptedPool κ :=
  let disposed := next.pool.disposeCalls.drop s.system.pool.disposeCalls.length
  (disposed.map Prod.fst).foldl (dispose adapter)
    { s with
      system := next
      makings := s.makings ++
        List.replicate (next.pool.factoryCalls.length - s.makings.length) .configuring }

omit [DecidableEq κ] in
/-- A call of the factory goes on. -/
def setMaking (s : AdaptedPool κ) (c : FactoryId) (making : Making) : AdaptedPool κ :=
  { s with makings := s.makings.modify c fun _ => making }

/-- A call of the factory resolves or rejects. -/
def settle (options : PoolOptions) (settings : InMemoryCircuitBreakerOptions) (s : AdaptedPool κ)
    (c : FactoryId) (answer : Option ClientId) : Option (AdaptedPool κ) :=
  (s.system.step options settings (.pool (.factorySettled c answer))).map fun system =>
    { s with system }

/-- A call of the factory resolves with its client. -/
def resolve (options : PoolOptions) (settings : InMemoryCircuitBreakerOptions)
    (adapter : Adapter) (s : AdaptedPool κ) (c : FactoryId) (client : ClientId) :
    Option (AdaptedPool κ) :=
  let s := if adapter.wraps then { s with wrapped := s.wrapped ++ [client] } else s
  (s.setMaking c (.resolved client)).settle options settings c (some client)

omit [DecidableEq κ] in
/-- The client is closed at once, and the error is thrown when that has ended. -/
def giveUp (s : AdaptedPool κ) (c : FactoryId) (client : ClientId) : AdaptedPool κ :=
  { s.setMaking c (.closing client) with closes := s.closes ++ [client] }

/-- A factory goes on after the configuration of a key, or its client, has settled. -/
def construct (options : PoolOptions) (settings : InMemoryCircuitBreakerOptions)
    (adapter : Adapter) (s : AdaptedPool κ) (c : FactoryId) (key : κ) :
    Construction → Option (AdaptedPool κ)
  | .failed => (s.setMaking c (.rejected none)).settle options settings c none
  | .made =>
    let constructed : AdaptedPool κ := { s with clients := s.clients ++ [key] }
    if adapter.opens then some (constructed.setMaking c (.opening s.clients.length))
    else constructed.resolve options settings adapter c s.clients.length
  | .unwrapped =>
    let constructed : AdaptedPool κ := { s with clients := s.clients ++ [key] }
    -- Only a client that is to be wrapped can fail to be.
    if adapter.wraps then some (constructed.giveUp c s.clients.length) else none

/-- The effect of an action, where it can happen. -/
def step (options : PoolOptions) (settings : InMemoryCircuitBreakerOptions) (adapter : Adapter)
    (s : AdaptedPool κ) : AdapterAction κ → Option (AdaptedPool κ)
  | .system action =>
    if action.ofFactory then none
    else (s.system.step options settings action).map (s.follow adapter)
  | .constructed c construction =>
    (s.makings[c]?).bind fun making =>
      match making with
      | .configuring =>
        (s.system.pool.callKey c).bind fun key =>
          s.construct options settings adapter c key construction
      | .opening _ | .closing _ | .resolved _ | .rejected _ => none
  | .opened c succeeded =>
    (s.makings[c]?).bind fun making =>
      match making with
      | .opening client =>
        if succeeded then s.resolve options settings adapter c client
        else some (s.giveUp c client)
      | .configuring | .closing _ | .resolved _ | .rejected _ => none
  | .closed c =>
    (s.makings[c]?).bind fun making =>
      match making with
      | .closing client => (s.setMaking c (.rejected (some client))).settle options settings c none
      | .configuring | .opening _ | .resolved _ | .rejected _ => none

end AdaptedPool

end RefPool
