import RefPool.Model.Emitter
import RefPool.Model.Metrics

/-! An exporter bound to an emitter, by listeners of its own, until it is unbound. -/

namespace RefPool

/-- An exporter by its listeners. -/
structure Exporter (κ σ : Type) where
  /-- The types that it listens to, in the order of its subscriptions. -/
  topics : List PoolEventType
  /-- What it keeps before it has heard of anything. -/
  start : σ
  /-- What its listener for the type of an event does. -/
  hear : σ → PoolEvent κ → σ

/-- The exporter that `bindPrometheus` makes. -/
def Prometheus.exporter {κ : Type} : Exporter κ Prometheus where
  topics := [.acquire, .release, .breakerOpen, .breakerClose, .breakerHalfOpen]
  start := .bind
  hear := .hear

/-- The exporter that `bindOpenTelemetry` makes. -/
def OpenTelemetry.exporter {κ : Type} : Exporter κ OpenTelemetry where
  topics :=
    [.create, .dispose, .evict, .acquire, .release, .breakerOpen, .breakerClose, .breakerHalfOpen]
  start := .bind
  hear := .hear

/-- An emitter with an exporter bound to it. -/
structure Binding (κ σ : Type) where
  system : EmitterSystem κ
  /-- What the exporter keeps. -/
  metrics : σ
  /-- Whether `unbind` was called. -/
  unbound : Bool

/-- What can happen next to an emitter with an exporter bound to it. -/
inductive BindingAction (κ : Type) where
  | emitter (action : EmitterAction κ)
  | unbind

namespace Binding

variable {κ σ : Type}

/-- Subscribe the exporter's listeners, of which there is one for each type. -/
def bind (exporter : Exporter κ σ) (own : PoolEventType → ListenerId) (system : EmitterSystem κ) :
    Binding κ σ where
  system :=
    { system with
      emitter := exporter.topics.foldl (fun emitter topic => emitter.on topic (own topic))
        system.emitter }
  metrics := exporter.start
  unbound := false

/-- The event that a call makes one of the exporter's listeners hear. -/
def hears (exporter : Exporter κ σ) (own : PoolEventType → ListenerId) (s : Binding κ σ) :
    BindingAction κ → List (PoolEvent κ)
  | .emitter .call =>
    match s.system.emissions with
    | ⟨_, event, listener :: _, false⟩ :: _ =>
      if event.type ∈ exporter.topics ∧ listener = own event.type then [event] else []
    | _ => []
  | _ => []

/-- The effect of an action, where it can happen. -/
def step (exporter : Exporter κ σ) (own : PoolEventType → ListenerId) (s : Binding κ σ)
    (action : BindingAction κ) : Option (Binding κ σ) :=
  match action with
  | .emitter inner =>
    (s.system.step inner).map fun system =>
      { s with system, metrics := (s.hears exporter own action).foldl exporter.hear s.metrics }
  | .unbind =>
    if s.system.outside then
      -- Unbinding again does nothing.
      if s.unbound then some s
      else
        some
          { s with
            unbound := true
            system :=
              { s.system with
                emitter := exporter.topics.foldl
                  (fun emitter topic => emitter.off topic (own topic)) s.system.emitter } }
    else none

end Binding

end RefPool
