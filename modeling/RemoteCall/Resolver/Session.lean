import RemoteCall.Registry.Listed
import RemoteCall.Resolver

/-! A resolver over a listed registry that answers as planned, in time that moves only on demand. -/
namespace RemoteCall.Resolver

/-- How one listing will go: when it is answered, never without a span, and with which failure. -/
structure Pace where
  span : Option Nat := some 0
  failure : Option Error := none
deriving Inhabited

inductive Note where
  | set (addresses : List String)
  | report (e : Error)

/-- A sink that notes what it is given. It refuses the next lists as planned, but notes them too. -/
structure Recorder where
  notes : List Note := []
  refusals : List Error := []

def Recorder.add (r : Recorder) (n : Note) : Recorder := { r with notes := r.notes ++ [n] }

def Recorder.sink : Sink Recorder where
  update r instances :=
    let r := r.add (.set (instances.map (·.address)))
    match r.refusals with
    | e :: rest => ({ r with refusals := rest }, .error e)
    | [] => (r, .ok ())
  report r e := r.add (.report e)

structure Session where
  registry : ListedRegistry
  subscription : Nat
  resolver : Resolver
  recorder : Recorder
  plan : List Pace
  now : Int := 0
  /-- The end of the listing in progress, and its failure. -/
  listing : Int × Option Error := (0, none)

namespace Session

def begin (s : Session) : Session :=
  let pace := s.plan.headD {}
  { s with plan := s.plan.drop 1, listing := s.resolver.finish s.now pace.span pace.failure }

/-- What the resolver can go on for, the most pressing first. -/
def wake? (s : Session) : Option Wake :=
  let subscription := s.registry.subscription s.subscription
  if s.resolver.cancelled then some .cancelled
  else if !subscription.waiting.isEmpty then some .event
  else if subscription.hasEnded then some .ended
  else if s.resolver.refresh then some .refresh
  else none

def goOn (s : Session) (w : Wake) : Session :=
  let (resolver, report) := s.resolver.wake w
  let s := { s with
    resolver
    registry := if w == .event then (s.registry.receive s.subscription).2 else s.registry
    recorder := match report with
      | some e => Recorder.sink.report s.recorder e
      | none => s.recorder }
  if resolver.phase == .listing then s.begin else s

/-- Hands on the list, as it is now, or the failure of the listing. -/
def handOn (s : Session) : Session :=
  let listed := match s.listing.2 with
    | some e => .error e
    | none => .ok (s.registry.list s.resolver.service)
  { s with recorder := Recorder.sink.take s.recorder listed, resolver := s.resolver.listed }

/-- The resolver runs until it has to wait. Each round uses up an event, a request to refresh, or
the end of a listing. -/
def settle : (fuel : Nat) → Session → Session
  | 0, s => s
  | fuel + 1, s =>
    match s.resolver.phase with
    | .stopped => s
    | .listing => if s.listing.1 ≤ s.now then settle fuel s.handOn else s
    | .waiting =>
      match s.wake? with
      | some w => settle fuel (s.goOn w)
      | none => s

def pending (s : Session) : Nat := (s.registry.subscription s.subscription).waiting.length + 2

def settled (s : Session) : Session := s.settle (2 * s.pending + 2)

/-- Moves the time to an instant, from the end of one listing to the next. -/
def moveTo (target : Int) : (fuel : Nat) → Session → Session
  | 0, s => { s with now := target }
  | fuel + 1, s =>
    if s.resolver.phase == .listing && s.listing.1 ≤ target then
      moveTo target fuel { s with now := max s.now s.listing.1 }.settled
    else { s with now := target }

def advance (s : Session) (span : Nat) : Session :=
  (s.moveTo (s.now + span) (s.pending + 1)).settled

def start (registry : ListedRegistry) (service : String) (timeout : Duration) (plan : List Pace)
    (refusals : List Error) : Session :=
  let (registry, subscription) := registry.subscribe service
  let s := begin {
    registry, subscription, plan
    resolver := { service, timeout }
    recorder := { refusals } }
  { s with now := s.listing.1 }.settled

def mapRegistry (s : Session) (f : ListedRegistry → ListedRegistry) : Session :=
  { s with registry := f s.registry }

inductive Command where
  | register (i : Instance)
  | unregister (i : Instance)
  | update (instances : List Instance)
  | closeRegistry
  | plan (paces : List Pace)
  | refresh
  | advance (span : Nat)
  | close

def perform (s : Session) : Command → Session
  | .register i => s.mapRegistry (·.register i)
  | .unregister i => s.mapRegistry (·.unregister i)
  | .update instances => s.mapRegistry (·.update instances)
  | .closeRegistry => s.mapRegistry (·.close)
  | .plan paces => { s with plan := s.plan ++ paces }
  | .refresh => { s with resolver := s.resolver.requestRefresh }
  | .advance span => s.advance span
  | .close => { s with resolver := s.resolver.close }

/-- After each command the resolver goes on until it has to wait. -/
def run (s : Session) (commands : List Command) : Session :=
  commands.foldl (fun s c => (s.perform c).settled) s

def report (s : Session) : Session × List Note :=
  let s := s.settled
  ({ s with recorder := { s.recorder with notes := [] } }, s.recorder.notes)

end Session
end RemoteCall.Resolver
