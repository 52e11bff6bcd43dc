import RefPool.Model.Step
import Mathlib.Algebra.Order.Field.Rat

/-! The Prometheus and the OpenTelemetry exporter, attached to one pool. -/

namespace RefPool

/-- Numeric encoding of the circuit-breaker state, higher being worse. -/
def breakerStateCode : BreakerState → Int
  | .closed => 0
  | .halfOpen => 1
  | .open => 2

/-- Saturation as `live / max`, clamped to the unit interval. -/
def saturation (stats : PoolStats) (max : Option Int) : Rat :=
  match max with
  | none => 0
  -- A bound that is not positive bounds nothing.
  | some max => if max ≤ 0 then 0 else Min.min 1 ((stats.live : Rat) / (max : Rat))

/-- The gauges that are derived from a snapshot. -/
structure StatsGauges where
  live : Int
  idle : Int
  inUse : Int
  keys : Int
  waiters : Int
  max : Int
  saturation : Rat
  deriving DecidableEq

/-- The gauges as a snapshot gives them. -/
def StatsGauges.ofStats (max : Option Int) (stats : PoolStats) : StatsGauges where
  live := stats.live
  idle := stats.idle
  inUse := stats.inUse
  keys := stats.keys
  waiters := stats.waiters
  max := max.getD 0
  saturation := RefPool.saturation stats max

/-- The cumulative totals that both exporters report. -/
structure MetricTotals where
  created : Int := 0
  disposed : Int := 0
  evicted : Int := 0
  hits : Int := 0
  misses : Int := 0
  breakerClosed : Int := 0
  breakerOpen : Int := 0
  breakerHalfOpen : Int := 0
  deriving DecidableEq

/-- What the Prometheus binding keeps. -/
structure Prometheus where
  /-- The counters by what they have been incremented so far. -/
  counters : MetricTotals
  acquires : Nat
  releases : Nat
  /-- The snapshot that the last increments were taken against. -/
  last : MetricTotals
  gauges : StatsGauges
  breakerState : Int

namespace Prometheus

/-- `bindPrometheus`, which sets the breaker gauge and nothing else. -/
def bind : Prometheus where
  counters := {}
  acquires := 0
  releases := 0
  last := {}
  -- A gauge reads zero until it is set.
  gauges := ⟨0, 0, 0, 0, 0, 0, 0⟩
  breakerState := breakerStateCode .closed

/-- The `sync` callback of a scrape: count what has changed since the last one. -/
def sync (max : Option Int) (prometheus : Prometheus) (stats : PoolStats) : Prometheus :=
  let last := prometheus.last
  let counters := prometheus.counters
  -- A breaker counter is left alone where nothing has changed.
  let breaker (counter now before : Int) : Int × Int :=
    if now - before ≠ 0 then (counter + (now - before), now) else (counter, before)
  let closed := breaker counters.breakerClosed stats.breaker.toClosed last.breakerClosed
  let opened := breaker counters.breakerOpen stats.breaker.toOpen last.breakerOpen
  let halfOpened := breaker counters.breakerHalfOpen stats.breaker.toHalfOpen last.breakerHalfOpen
  { prometheus with
    gauges := .ofStats max stats
    counters :=
      { created := counters.created + (stats.created - last.created)
        disposed := counters.disposed + (stats.disposed - last.disposed)
        evicted := counters.evicted + (stats.evicted - last.evicted)
        hits := counters.hits + (stats.hits - last.hits)
        misses := counters.misses + (stats.misses - last.misses)
        breakerClosed := closed.1
        breakerOpen := opened.1
        breakerHalfOpen := halfOpened.1 }
    last :=
      { created := stats.created
        disposed := stats.disposed
        evicted := stats.evicted
        hits := stats.hits
        misses := stats.misses
        breakerClosed := closed.2
        breakerOpen := opened.2
        breakerHalfOpen := halfOpened.2 } }

/-- The listeners of the binding. -/
def hear {κ : Type} (prometheus : Prometheus) : PoolEvent κ → Prometheus
  | .acquire _ _ => { prometheus with acquires := prometheus.acquires + 1 }
  | .release _ _ => { prometheus with releases := prometheus.releases + 1 }
  | .breakerOpen _ => { prometheus with breakerState := breakerStateCode .open }
  | .breakerClose _ => { prometheus with breakerState := breakerStateCode .closed }
  | .breakerHalfOpen _ => { prometheus with breakerState := breakerStateCode .halfOpen }
  -- The rest is read off the snapshots.
  | _ => prometheus

end Prometheus

/-- What the OpenTelemetry binding keeps. -/
structure OpenTelemetry where
  created : Nat
  disposed : Nat
  /-- Evictions, by the reason they are labelled with. -/
  evictedLru : Nat
  evictedTtl : Nat
  evictedDrain : Nat
  acquires : Nat
  releases : Nat
  breakerTransitions : BreakerCounts
  breakerState : BreakerState

namespace OpenTelemetry

/-- `bindOpenTelemetry`: nothing has been added yet. -/
def bind : OpenTelemetry := ⟨0, 0, 0, 0, 0, 0, 0, {}, .closed⟩

/-- The listeners of the binding. -/
def hear {κ : Type} (binding : OpenTelemetry) : PoolEvent κ → OpenTelemetry
  | .create _ => { binding with created := binding.created + 1 }
  | .dispose _ => { binding with disposed := binding.disposed + 1 }
  | .evict _ .lru => { binding with evictedLru := binding.evictedLru + 1 }
  | .evict _ .ttl => { binding with evictedTtl := binding.evictedTtl + 1 }
  | .evict _ .drain => { binding with evictedDrain := binding.evictedDrain + 1 }
  | .acquire _ _ => { binding with acquires := binding.acquires + 1 }
  | .release _ _ => { binding with releases := binding.releases + 1 }
  | .breakerOpen _ =>
    { binding with
      breakerState := .open, breakerTransitions := binding.breakerTransitions.bump .open }
  | .breakerClose _ =>
    { binding with
      breakerState := .closed, breakerTransitions := binding.breakerTransitions.bump .closed }
  | .breakerHalfOpen _ =>
    { binding with
      breakerState := .halfOpen, breakerTransitions := binding.breakerTransitions.bump .halfOpen }
  -- The sweep, drain and resurrection events have no listener.
  | _ => binding

/-- The totals of a collection: counters as added up, hits and misses as observed. -/
def collect (binding : OpenTelemetry) (stats : PoolStats) : MetricTotals where
  created := binding.created
  disposed := binding.disposed
  evicted := binding.evictedLru + binding.evictedTtl + binding.evictedDrain
  hits := stats.hits
  misses := stats.misses
  breakerClosed := binding.breakerTransitions.toClosed
  breakerOpen := binding.breakerTransitions.toOpen
  breakerHalfOpen := binding.breakerTransitions.toHalfOpen

end OpenTelemetry

/-- A pool with both exporters attached. -/
structure Exported (κ τ : Type) where
  pool : State κ τ
  prometheus : Prometheus
  openTelemetry : OpenTelemetry

/-- What happens next to a pool with its exporters. -/
inductive ExportAction (κ τ : Type) where
  | pool (action : Action κ τ)
  | scrapePrometheus
  | scrapeOpenTelemetry

namespace Exported

variable {κ τ : Type} [DecidableEq κ]

/-- Attach both exporters to a pool, at whatever point of its run. -/
def bind (pool : State κ τ) : Exported κ τ := ⟨pool, .bind, .bind⟩

/-- The pool moved on, and the listeners were called with what it emitted. -/
def dispatch (s : Exported κ τ) (pool : State κ τ) : Exported κ τ :=
  let news := (pool.events.drop s.pool.events.length).map Emitted.event
  { pool
    prometheus := news.foldl Prometheus.hear s.prometheus
    openTelemetry := news.foldl OpenTelemetry.hear s.openTelemetry }

/-- The effect of an action, where it can happen. -/
def step (options : PoolOptions) (max : Option Int) (s : Exported κ τ) :
    ExportAction κ τ → Option (Exported κ τ)
  | .pool action => (s.pool.step options action).map s.dispatch
  | .scrapePrometheus => some { s with prometheus := s.prometheus.sync max s.pool.getStats }
  -- Collecting observes and keeps nothing.
  | .scrapeOpenTelemetry => some s

end Exported

end RefPool
