import RemoteCall.Connection.Traffic
import RemoteCall.Interceptor.Basic
import RemoteCall.Server

/-! Calls as work: a call makes the moves that lead to its end, as fast as the network lets it. -/
namespace RemoteCall

abbrev Peer (σ : Type) := ByteArray → Work σ Handled

abbrev Network (σ : Type) := String → Work σ (Result (Peer σ))

def Network.down {σ : Type} (e : Error) : Network σ := fun _ => pure (.error e)

/-- How a state keeps the traffic to one address. -/
structure Lines (σ : Type) where
  address : String
  connectTimeout : Duration
  traffic : σ → Traffic
  setTraffic : Traffic → σ → σ

namespace Lines
variable {σ : Type}

def move (l : Lines σ) (x : Move) : Work σ Unit :=
  Work.modify fun s => l.setTraffic ((l.traffic s).step x) s

def moveAt (l : Lines σ) (x : Move) : Work σ Unit :=
  .clock fun now => do
    let s := l.traffic (← Work.get)
    l.move (.pass (now.mono - s.pool.now).toNat)
    l.move x

def connectLate (l : Lines σ) : Error :=
  ⟨.network, "connect to " ++ l.address ++ " timed out after " ++ l.connectTimeout.decimalText⟩

/-- Connects; without a bound it may take as long as it takes. -/
def connect (l : Lines σ) (network : Network σ) : Work σ (Result (Peer σ)) :=
  let w := network l.address
  if l.connectTimeout.isZero then w else w.timeLimit l.connectTimeout l.connectLate

def dial (l : Lines σ) (network : Network σ) (ticket : Nat) : Work σ Unit := do
  match (l.traffic (← Work.get)).pool.phase? ticket with
  | some (.dialing _) => do
    let outcome ← l.connect network
    l.moveAt (.dialed ticket (outcome.map fun _ => ()))
  | _ => pure ()

def acquire (l : Lines σ) (network : Network σ) (ticket : Nat) (request : Request) :
    Work σ Unit := do
  l.moveAt (.ask ticket request)
  let pool := (l.traffic (← Work.get)).pool
  match pool.phase? ticket, pool.config.waitTimeout with
  | some .queued, none => .never
  | some .queued, some span => do
    Work.sleep span.nanos
    l.moveAt (.expire ticket)
    l.dial network ticket
  | _, _ => l.dial network ticket

/-- The peer handles the oldest frame. If it cannot be reached any more, the connection has ended.
-/
def handleNext (l : Lines σ) (network : Network σ) (c : Nat) (frame : ByteArray) : Work σ Unit := do
  match ← network l.address with
  | .error _ => l.move (.hangUp c 0)
  | .ok peer => do
    let h ← peer frame
    l.move (.handle c frame h)

/-- Writes, and reads what there is; while there is nothing to read, the peer handles frames. Each
round writes, reads, or takes a frame from what was sent. -/
def exchange (l : Lines σ) (network : Network σ) (ticket : Nat) : (fuel : Nat) → Work σ Unit
  | 0 => .never
  | fuel + 1 => do
    let s := l.traffic (← Work.get)
    match s.stage? ticket with
    | some (.writing _ rest) => do
      l.moveAt (.write ticket rest.size)
      l.exchange network ticket fuel
    | some (.reading c _) =>
      let link := s.link c
      if link.ended || !link.unread.isEmpty then do
        l.moveAt (.read ticket link.unread.size)
        l.exchange network ticket fuel
      else if link.isStuck then do
        l.move (.hangUp c 0)
        l.exchange network ticket fuel
      else match link.oldest? with
        | some (frame, _) => do
          l.handleNext network c frame
          l.exchange network ticket fuel
        | none => .never
    | _ => pure ()

/-- How many rounds a call may need: at most two for each frame before its response. -/
def rounds (s : Traffic) (ticket : Nat) : Nat :=
  match s.stage? ticket with
  | some (.writing c rest) => (s.link c).sent.size + rest.size + 4
  | _ => 1

/-- The part of a call that its context bounds. -/
def attempt (l : Lines σ) (network : Network σ) (ticket : Nat) (request : Request) :
    Work σ (Result Response) := do
  l.acquire network ticket request
  l.moveAt (.proceed ticket)
  l.exchange network ticket (rounds (l.traffic (← Work.get)) ticket)
  match (l.traffic (← Work.get)).stage? ticket with
  | some (.ended outcome) => pure outcome
  | _ => .never

/-- A call over a connection of the pool. Whatever it still holds when its context finishes is given
up. A deadline that has no place on the wall clock makes it break down before it begins. -/
def call (l : Lines σ) (network : Network σ) (cancels : Cancels) : Handler (Work σ) :=
  fun context request => .clock fun now =>
    match context.applyTo now request with
    | none => .crash
    | some request => do
      let ticket := (l.traffic (← Work.get)).pool.freshTicket
      match ← context.bound cancels (l.attempt network ticket request) with
      | .ok response => pure (.ok response)
      | .error e => do
        l.moveAt (.cut ticket e)
        pure (.error e)

end Lines
end RemoteCall
