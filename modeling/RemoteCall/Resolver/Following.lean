import RemoteCall.Registry.Listed
import RemoteCall.Resolver

/-! A resolver and the registry that it follows, with everything that is on its way between them.

Whoever builds a resolver subscribes, has the service listed and hands the list on; then the
resolver goes on by itself. An event that the registry sends is taken by a forwarder, which passes
it on to where a bounded number of events wait for the resolver. Each action below is one
uninterrupted action of one party; what happens in between is any order of actions. -/
namespace RemoteCall

inductive Listing where
  | due
  | begun
  /-- The registry has answered, and the answer is still to be handed on. -/
  | read (instances : List Instance)
deriving DecidableEq, Repr, Inhabited

structure Following (σ : Type) where
  registry : ListedRegistry
  resolver : Resolver
  sink : σ
  /-- The subscription goes by its number. -/
  subscription : Option Nat := none
  /-- An event that the forwarder is to pass on. -/
  inHand : Option Event := none
  /-- Events passed on and not yet taken up by the resolver, the oldest first. -/
  queue : List Event := []
  listing : Listing := .due
  /-- Whoever built the resolver has got it. -/
  built : Bool := false
  /-- What the sink was given, the oldest first. -/
  given : List (List Instance) := []
deriving DecidableEq

namespace Following
open Resolver (Wake)
variable {σ : Type}

def queueCapacity : Nat := 64

inductive Action where
  | register (i : Instance)
  | unregister (i : Instance)
  | update (instances : List Instance)
  | closeRegistry
  | subscribe
  | begin
  | read
  /-- The listing takes too long. -/
  | expire
  /-- The registry cannot answer. -/
  | fail (e : Error)
  | handOn
  /-- The first listing is done, and the resolver goes to whoever built it. -/
  | complete
  /-- The forwarder takes the next event. -/
  | take
  /-- The forwarder passes on what it has in hand, or finds that nobody is there to take it. -/
  | pass
  | wake (w : Wake)
  | refresh
  | close
deriving DecidableEq

def new (registry : ListedRegistry) (service : String) (timeout : Duration) (sink : σ) :
    Following σ where
  registry
  resolver := { service, timeout }
  sink

def hasReason (s : Following σ) : Wake → Bool
  | .cancelled => s.resolver.cancelled
  | .event => !s.queue.isEmpty
  | .ended => s.queue.isEmpty && s.inHand.isNone &&
      (s.subscription.map fun n => (s.registry.subscription n).hasEnded).getD false
  | .refresh => s.resolver.refresh

/-- The resolver goes on. Once it has stopped, no event waits for it any more. -/
def goOn (sink : Sink σ) (s : Following σ) (w : Wake) : Following σ :=
  let (resolver, report) := s.resolver.wake w
  { s with
    resolver
    queue := if resolver.phase == .stopped then [] else if w ==
      .event then s.queue.drop 1 else s.queue
    sink := match report with
      | some e => sink.report s.sink e
      | none => s.sink }

def fail? (sink : Sink σ) (s : Following σ) (e : Error) : Option (Following σ) :=
  match s.resolver.phase, s.listing with
  | .listing, .begun => some { s with
      sink := sink.take s.sink (.error e)
      resolver := s.resolver.listed
      listing := .due }
  | _, _ => none

def step? (sink : Sink σ) (s : Following σ) : Action → Option (Following σ)
  | .register i => some { s with registry := s.registry.register i }
  | .unregister i => some { s with registry := s.registry.unregister i }
  | .update instances => some { s with registry := s.registry.update instances }
  | .closeRegistry => some { s with registry := s.registry.close }
  | .subscribe =>
    match s.subscription with
    | none =>
      let (registry, n) := s.registry.subscribe s.resolver.service
      some { s with registry, subscription := some n }
    | some _ => none
  | .begin =>
    match s.subscription, s.resolver.phase, s.listing with
    | some _, .listing, .due => some { s with listing := .begun }
    | _, _, _ => none
  | .read =>
    match s.resolver.phase, s.listing with
    | .listing, .begun => some { s with listing := .read (s.registry.list s.resolver.service) }
    | _, _ => none
  | .expire => s.fail? sink s.resolver.slowError
  | .fail e => s.fail? sink e
  | .handOn =>
    match s.resolver.phase, s.listing with
    | .listing, .read instances => some { s with
        sink := sink.take s.sink (.ok instances)
        given := s.given ++ [instances]
        resolver := s.resolver.listed
        listing := .due }
    | _, _ => none
  | .complete =>
    match s.built, s.resolver.phase with
    | false, .waiting => some { s with built := true }
    | _, _ => none
  | .take =>
    match s.subscription, s.inHand with
    | some n, none =>
      match s.registry.receive n with
      | (some e, registry) => some { s with registry, inHand := some e }
      | (none, _) => none
    | _, _ => none
  | .pass =>
    match s.subscription, s.inHand with
    | some n, some e =>
      if s.resolver.phase == .stopped then some
        { s with registry := s.registry.leave n, inHand := none }
      else if s.queue.length < queueCapacity then some
        { s with inHand := none, queue := s.queue ++ [e] }
      else none
    | _, _ => none
  | .wake w =>
    match s.built, s.resolver.phase with
    | true, .waiting => if s.hasReason w then some (s.goOn sink w) else none
    | _, _ => none
  | .refresh => if s.built then some { s with resolver := s.resolver.requestRefresh } else none
  | .close => if s.built then some { s with resolver := s.resolver.close } else none

/-- What cannot be done changes nothing. -/
def step (sink : Sink σ) (s : Following σ) (a : Action) : Following σ := (s.step? sink a).getD s

def run (sink : Sink σ) (s : Following σ) (actions : List Action) : Following σ :=
  actions.foldl (step sink) s

def after (sink : Sink σ) (s : Following σ) (actions : Nat → Action) (n : Nat) : Following σ :=
  s.run sink ((List.range n).map actions)

/-- The resolver, or whoever builds it, does this to bring the listing forward. -/
def Action.IsResolvers : Action → Prop
  | .begin | .read | .handOn | .wake _ => True
  | _ => False

def Moves (sink : Sink σ) (s : Following σ) (a : Action) : Prop :=
  a.IsResolvers ∧ (s.step? sink a).isSome = true

/-- Whenever the resolver can go on it does so, sooner or later. -/
def Fair (sink : Sink σ) (s : Following σ) (actions : Nat → Action) : Prop :=
  ∀ n, (∃ a, (s.after sink actions n).Moves sink a) →
    ∃ m, n ≤ m ∧ (s.after sink actions m).Moves sink (actions m)

/-- Events sent to the resolver that it has not taken up. -/
def pending (s : Following σ) : List Event :=
  s.queue ++ (s.inHand.toList ++
    (s.subscription.map fun n => (s.registry.subscription n).waiting).getD [])

/-- Nothing is on its way, and the resolver waits. -/
structure AtRest (s : Following σ) : Prop where
  pending : s.pending = []
  waiting : s.resolver.phase = .waiting

end Following
end RemoteCall
