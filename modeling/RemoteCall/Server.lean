import RemoteCall.Address
import RemoteCall.Config
import RemoteCall.Service
import RemoteCall.Work

/-! Servers: services that are announced while they can be reached, and withdrawn before they
cannot.

Starting is all or nothing. If one announcement fails, every announcement is withdrawn, also those
that were not made, and the server stops. -/
namespace RemoteCall

/-- Announces services at an address, and withdraws them. Either may fail, or take for ever. -/
structure Announcer (σ : Type) where
  register : (service address : String) → Work σ (Result Unit)
  unregister : (service address : String) → Work σ (Result Unit)
  intact_register : ∀ service address, (register service address).IsIntact
  intact_unregister : ∀ service address, (unregister service address).IsIntact

/-- Looks at a peer before anything is read from it; an error turns it away. -/
abbrev Gate := PeerAddress → Result Unit

structure Entrance (σ : Type) where
  /-- Yields the address on which it listens. -/
  listen : String → Work σ (Result PeerAddress)
  /-- From now on the peers that pass the gates are let in. -/
  welcomeAll : Handler (Work σ) → List Gate → (nodelay : Option Bool) → σ → σ
  /-- Lets in nobody any more, and waits for what is being handled. -/
  stop : Work σ (Result Unit)

structure Server (σ : Type) where
  config : ServerConfig
  services : List (Service (Work σ)) := []
  interceptors : List (Interceptor (Work σ)) := []
  announcers : List (Announcer σ) := []
  gates : List Gate := []

structure RunningServer (σ : Type) where
  server : Server σ
  bound : PeerAddress
  /-- The address that is announced. -/
  advertised : String

/-- The outcome of work, or an error if it takes longer than a span. Time ends at whole
milliseconds. -/
def Work.timeLimit {σ α : Type} (span : Duration) (late : Error) (w : Work σ (Result α)) :
    Work σ (Result α) :=
  .clock fun now => do
    let outcome ← w.limit true (Clock.timerTick (now.mono + span.nanos) - now.mono).toNat
    pure (outcome.getD (.error late))

namespace Server
variable {σ : Type}

/-- Adds a service, unless there is one of that name. -/
def add (s : Server σ) (service : Service (Work σ)) : Result (Server σ) :=
  if s.services.any fun other => other.name == service.name then
    .error ⟨.config, "service " ++ service.name ++ " is already registered"⟩
  else .ok { s with services := s.services ++ [service] }

def handler (s : Server σ) : Handler (Work σ) :=
  chain s.interceptors (Dispatcher.ofList s.services).handler

/-- Every service with every announcer, all of one service before the next. -/
def pairs (s : Server σ) : List (String × Announcer σ) :=
  s.services.flatMap fun service => s.announcers.map fun announcer => (service.name, announcer)

/-- The first gate that turns a peer away says why. -/
def welcome (s : Server σ) (peer : PeerAddress) : Result Unit := s.gates.forM fun gate => gate peer

end Server

namespace RunningServer
variable {σ : Type}

def timeout (r : RunningServer σ) : Duration := r.server.config.registerTimeout

def registerLate (r : RunningServer σ) (service : String) : Error :=
  ⟨.timeout, "registering " ++ service ++ " took longer than " ++ r.timeout.decimalText⟩

def unregisterLate : Error := ⟨.timeout, "unregister timed out"⟩

def register (r : RunningServer σ) (pair : String × Announcer σ) : Work σ (Result Unit) :=
  (pair.2.register pair.1 r.advertised).timeLimit r.timeout (r.registerLate pair.1)

def unregister (r : RunningServer σ) (pair : String × Announcer σ) : Work σ (Result Unit) :=
  (pair.2.unregister pair.1 r.advertised).timeLimit r.timeout unregisterLate

/-- Announces up to the first failure. -/
def registerAll (r : RunningServer σ) : List (String × Announcer σ) → Work σ (Result Unit)
  | [] => pure (.ok ())
  | pair :: rest => do
    match ← r.register pair with
    | .error e => pure (.error e)
    | .ok () => r.registerAll rest

/-- Withdraws everything, whatever fails; the first failure is the outcome. -/
def unregisterAll (r : RunningServer σ) : List (String × Announcer σ) → Work σ (Result Unit)
  | [] => pure (.ok ())
  | pair :: rest => do
    let first ← r.unregister pair
    let others ← r.unregisterAll rest
    pure (match first with
      | .error e => .error e
      | .ok () => others)

/-- Withdraws every announcement, and only then stops. -/
def close (r : RunningServer σ) (entrance : Entrance σ) : Work σ (Result Unit) := do
  let withdrawn ← r.unregisterAll r.server.pairs
  let stopped ← entrance.stop
  pure (match withdrawn with
    | .error e => .error e
    | .ok () => stopped)

/-- Announces every service, and closes if that fails. -/
def announce (r : RunningServer σ) (entrance : Entrance σ) : Work σ (Result (RunningServer σ)) := do
  match ← r.registerAll r.server.pairs with
  | .ok () => pure (.ok r)
  | .error e => do
    let _ ← r.close entrance
    pure (.error e)

end RunningServer

namespace Server
variable {σ : Type}

def running (s : Server σ) (bound : PeerAddress) : RunningServer σ :=
  ⟨s, bound, s.config.advertiseAddr.getD bound.text⟩

/-- Lets peers in, then announces every service. -/
def start (s : Server σ) (entrance : Entrance σ) : Work σ (Result (RunningServer σ)) := do
  match ← entrance.listen s.config.addr with
  | .error e => pure (.error e)
  | .ok bound =>
    Work.modify (entrance.welcomeAll s.handler s.gates s.config.nodelay)
    (s.running bound).announce entrance

end Server

end RemoteCall
