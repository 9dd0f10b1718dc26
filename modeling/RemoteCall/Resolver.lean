import RemoteCall.Duration
import RemoteCall.Error
import RemoteCall.Registry.Instance

/-! Following a service in a registry.

A resolver subscribes before it lists the service for the first time, so that no change falls
between the two. From then on every event and every request to refresh leads to one more listing, so
what is handed on is always a list as the registry gave it. -/
namespace RemoteCall

/-- What takes over the instances of a service and hears of failures to learn them. -/
structure Sink (σ : Type) where
  update : σ → List Instance → σ × Result Unit
  report : σ → Error → σ

/-- Hands on what a listing yielded. A list that is refused counts as a failure. -/
def Sink.take {σ : Type} (sink : Sink σ) (s : σ) (listed : Result (List Instance)) : σ :=
  match listed with
  | .error e => sink.report s e
  | .ok instances =>
    match sink.update s instances with
    | (s, .ok ()) => s
    | (s, .error e) => sink.report s e

inductive Resolver.Phase where
  | listing
  | waiting
  | stopped
deriving DecidableEq, Repr, Inhabited

inductive Resolver.Wake where
  | cancelled
  | event
  /-- No event will come any more. -/
  | ended
  | refresh
deriving DecidableEq, Repr, Inhabited

structure Resolver where
  service : String
  /-- The longest time that one listing may take. -/
  timeout : Duration
  phase : Resolver.Phase := .listing
  /-- A request to refresh waits; further ones add nothing to it. -/
  refresh : Bool := false
  cancelled : Bool := false
deriving DecidableEq, Repr, Inhabited

namespace Resolver

def endedError : Error := ⟨.registry, "registry subscription closed"⟩

def slowError (r : Resolver) : Error :=
  ⟨.timeout, "listing " ++ r.service ++ " took longer than " ++ r.timeout.decimalText⟩

def requestRefresh (r : Resolver) : Resolver :=
  if r.phase == .stopped then r else { r with refresh := true }

/-- Asks for the end. A listing that has begun is still handed on. -/
def close (r : Resolver) : Resolver := { r with cancelled := true }

def listed (r : Resolver) : Resolver := { r with phase := .waiting }

/-- Goes on for a reason; yields what is to be reported, if anything. -/
def wake (r : Resolver) : Wake → Resolver × Option Error
  | .cancelled => ({ r with phase := .stopped }, none)
  | .event => ({ r with phase := .listing }, none)
  | .ended => ({ r with phase := .stopped }, some endedError)
  | .refresh => ({ r with phase := .listing, refresh := false }, none)

/-- When a listing ends that begins now, and whether it fails. The registry answers after a span, or
never without one; an answer that comes just in time counts. -/
def finish (r : Resolver) (now : Int) (span : Option Nat) (failure : Option Error) :
    Int × Option Error :=
  match span with
  | some n => if n ≤ r.timeout.nanos then (now + n, failure)
      else (now + r.timeout.nanos, some r.slowError)
  | none => (now + r.timeout.nanos, some r.slowError)

end Resolver
end RemoteCall
