import RemoteCall.Server

/-! The life of a server whose announcers behave as planned, with what they are asked and how long
it takes. -/
namespace RemoteCall.Lifecycle

structure Asked where
  announcer : Nat
  isRegister : Bool
  service : String
  address : String
deriving DecidableEq, Repr

/-- How an announcer goes about what it is asked: it takes a span, or never ends, and may fail. -/
structure Conduct where
  span : Option Nat := some 0
  failure : Option Error := none
  /-- Everything but this service goes well at once. -/
  only : Option String := none
deriving Inhabited

abbrev Log := List Asked

def Conduct.act (c : Conduct) (service : String) : Work Log (Result Unit) :=
  if c.only.all (· == service) then
    match c.span with
    | none => .never
    | some n => do
      .sleep n
      pure (c.failure.elim (.ok ()) .error)
  else pure (.ok ())

theorem Conduct.intact_act (c : Conduct) (service : String) : (c.act service).IsIntact := by
  rw [act]
  split
  · split
    · trivial
    · trivial
  · trivial

/-- The announcer of a number, which notes what it is asked. -/
def planned (announcer : Nat) (register unregister : Conduct) : Announcer Log where
  register service address := do
    Work.modify fun log => log ++ [⟨announcer, true, service, address⟩]
    register.act service
  unregister service address := do
    Work.modify fun log => log ++ [⟨announcer, false, service, address⟩]
    unregister.act service
  intact_register service _ _ := register.intact_act service
  intact_unregister service _ _ := unregister.intact_act service

/-- The number that a listener gets if it asks for any. -/
def anyNumber : Nat := 49152

def unusable : Error := ⟨.network, "the address cannot be listened on"⟩

def loopback : Entrance Log where
  listen addr := pure <|
    match PeerAddress.ofText? (addr.replace "localhost:" "127.0.0.1:") with
    | some a =>
      if a.ip.isLocal then .ok { a with number := if a.number == 0 then anyNumber else a.number }
      else .error unusable
    | none => .error unusable
  welcomeAll _ _ _ log := log
  stop := pure (.ok ())

structure Stretch (α : Type) where
  outcome : Result α
  span : Nat
  log : Log

def stretch {α : Type} (w : Work Log (Result α)) : Stretch α :=
  match w.run ⟨0, 0⟩ [] with
  | (some outcome, clock, log) => ⟨outcome, clock.mono.toNat, log⟩
  | (none, clock, log) => ⟨.error (.ofKind .other), clock.mono.toNat, log⟩

def addAll (s : Server Log) : List String → Server Log × List (Result Unit)
  | [] => (s, [])
  | name :: rest =>
    match s.add { name } with
    | .ok s =>
      let (s, outcomes) := addAll s rest
      (s, .ok () :: outcomes)
    | .error e =>
      let (s, outcomes) := addAll s rest
      (s, .error e :: outcomes)

structure Life where
  added : List (Result Unit)
  start : Stretch (RunningServer Log)
  /-- If there was something to close. -/
  close : Option (Stretch Unit)

/-- A whole life: services are added, the server starts, and closes if it did. -/
def live (config : ServerConfig) (services : List String) (plans : List (Conduct × Conduct)) :
    Life :=
  let announcers := plans.zipIdx.map fun ((register, unregister), i) =>
    planned i register unregister
  let (server, added) := addAll { config, announcers } services
  let start := stretch (server.start loopback)
  { added, start, close := start.outcome.toOption.map fun r => stretch (r.close loopback) }

end RemoteCall.Lifecycle
