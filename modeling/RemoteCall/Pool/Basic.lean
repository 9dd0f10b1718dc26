import RemoteCall.Config
import RemoteCall.Context.Clock
import RemoteCall.Error

/-! A bounded pool of connections to one address, together with the callers that ask it.

Every connection that is open or being opened holds one admission. An admission that becomes free
goes to the caller that has waited longest, with the connection it belongs to or as leave to open
one. Each step below is one uninterrupted action; what happens in between is any order of steps. -/
namespace RemoteCall.Pool

inductive Handoff where
  | connection (c : Nat)
  /-- Leave to open a connection. -/
  | slot
deriving DecidableEq, Repr

inductive Phase where
  /-- In line, with nothing given yet. -/
  | queued
  /-- Something was given but not yet taken. -/
  | handed (h : Handoff)
  /-- The pool was closed on a caller in line. -/
  | refused
  | dialing (c : Nat)
  | holding (c : Nat)
deriving DecidableEq, Repr

structure Caller where
  ticket : Nat
  phase : Phase
deriving DecidableEq, Repr

/-- A connection that nobody uses, and since when. -/
structure Idle where
  connection : Nat
  lastActive : Int
deriving DecidableEq, Repr

structure State where
  config : PoolConfig
  now : Int := 0
  /-- The longest idle one first. -/
  idle : List Idle := []
  /-- The line of waiting callers; those that left it in between are passed over. -/
  waiters : List Nat := []
  /-- Admissions in use. -/
  admitted : Nat := 0
  /-- Admissions that were to be taken back although none was in use: there never are any. -/
  overdrawn : Nat := 0
  closed : Bool := false
  callers : List Caller := []
  /-- The tickets of all that ever asked. -/
  asked : List Nat := []
  /-- The number of the next connection. -/
  next : Nat := 1
  /-- Connections that were closed, the last one last. -/
  dropped : List Nat := []
  /-- What callers were answered, the last answer last. -/
  outcomes : List (Nat × Result Nat) := []
deriving Inhabited

/-- A pool must be allowed to open a connection. -/
def State.ofConfig (config : PoolConfig) : Result State :=
  if config.maxOpen == 0 then .error ⟨.config, "max_open must be positive"⟩
  else .ok { config }

namespace State

def phase? (s : State) (ticket : Nat) : Option Phase :=
  (s.callers.find? fun c => c.ticket == ticket).map (·.phase)

def setPhase (s : State) (ticket : Nat) (p : Phase) : State :=
  { s with callers := ⟨ticket, p⟩ :: s.callers.filter fun c => c.ticket != ticket }

def forget (s : State) (ticket : Nat) : State :=
  { s with callers := s.callers.filter fun c => c.ticket != ticket }

def answer (s : State) (ticket : Nat) (r : Result Nat) : State :=
  { s with outcomes := s.outcomes ++ [(ticket, r)] }

def fail (s : State) (ticket : Nat) (e : Error) : State :=
  (s.forget ticket).answer ticket (.error e)

def hold (s : State) (ticket c : Nat) : State :=
  (s.setPhase ticket (.holding c)).answer ticket (.ok c)

def drop (s : State) (c : Nat) : State := { s with dropped := s.dropped ++ [c] }

def isLive (s : State) (ticket : Nat) : Bool := s.phase? ticket == some .queued

/-- The line from the first caller that still stands in it. -/
def line (s : State) : List Nat := s.waiters.dropWhile fun w => !s.isLive w

def withIdle (s : State) (idle : List Idle) : State := { s with idle }

def withLine (s : State) (waiters : List Nat) : State := { s with waiters }

def takeBack (s : State) (n : Nat) : State :=
  { s with admitted := s.admitted - n, overdrawn := s.overdrawn + (n - s.admitted) }

/-- Gives a free admission to the first caller in line, or takes it back. -/
def freeSlot (s : State) : State :=
  match s.line with
  | [] => (s.withLine []).takeBack 1
  | w :: rest => (s.withLine rest).setPhase w (.handed .slot)

/-- Gives a connection to the first caller in line, keeps it idle, or closes it. -/
def giveBack (s : State) (c : Nat) : State :=
  match s.line with
  | w :: rest => (s.withLine rest).setPhase w (.handed (.connection c))
  | [] =>
    let s := s.withLine []
    if !s.closed && s.idle.length < s.config.maxIdle.toNat then
      s.withIdle (s.idle ++ [⟨c, s.now⟩])
    else (s.takeBack 1).drop c

def isExpired (s : State) (i : Idle) : Bool :=
  !s.config.idleTimeout.isZero && s.config.idleTimeout.nanos < s.now - i.lastActive

/-- Takes the first idle connection that is not too old; closes those before it. -/
def takeIdle (s : State) : List Idle → State × Option Nat
  | [] => (s.withIdle [], none)
  | i :: rest =>
    let s := s.withIdle rest
    if s.isExpired i then takeIdle (s.drop i.connection).freeSlot rest
    else (s, some i.connection)

def startDial (s : State) (ticket : Nat) : State :=
  { s with next := s.next + 1 }.setPhase ticket (.dialing s.next)

def closedError : Error := ⟨.poolExhausted, "pool is closed"⟩

def busyError (n : Nat) : Error := ⟨.poolExhausted, s!"all {n} connections are busy"⟩

def waitError (d : Duration) : Error :=
  ⟨.poolExhausted, "no connection released within " ++ d.decimalText⟩

/-- A caller gets an idle connection, leave to open one, or a place in line. -/
def letIn (s : State) (ticket : Nat) : State :=
  if s.closed then s.fail ticket closedError
  else match s.takeIdle s.idle with
    | (s, some c) => s.hold ticket c
    | (s, none) =>
      if s.admitted < s.config.maxOpen.toNat then
        { s with admitted := s.admitted + 1 }.startDial ticket
      else if s.config.failFast then s.fail ticket (busyError s.admitted)
      else (s.withLine (s.waiters ++ [ticket])).setPhase ticket .queued

def ask (s : State) (ticket : Nat) : State := { s with asked := ticket :: s.asked }.letIn ticket

def receive (s : State) (ticket : Nat) : State :=
  match s.phase? ticket with
  | some (.handed (.connection c)) => s.hold ticket c
  | some (.handed .slot) => s.startDial ticket
  | some .refused => s.fail ticket closedError
  | _ => s

/-- The longest wait is over. What was given in the meantime is taken all the same. -/
def expire (s : State) (ticket : Nat) : State :=
  match s.phase? ticket with
  | some .queued => s.fail ticket (waitError (s.config.waitTimeout.getD .zero))
  | _ => s.receive ticket

def dialed (s : State) (ticket : Nat) (outcome : Result Unit) : State :=
  match s.phase? ticket, outcome with
  | some (.dialing c), .ok () => s.hold ticket c
  | some (.dialing _), .error e => (s.fail ticket e).freeSlot
  | _, _ => s

def release (s : State) (ticket : Nat) : State :=
  match s.phase? ticket with
  | some (.holding c) => (s.forget ticket).giveBack c
  | _ => s

/-- A caller ends, wherever it stands: a connection that it has or was given is closed, and its
admission becomes free. -/
def abandon (s : State) (ticket : Nat) : State :=
  let gone := s.forget ticket
  match s.phase? ticket with
  | some (.holding c) | some (.handed (.connection c)) => (gone.drop c).freeSlot
  | some (.handed .slot) | some (.dialing _) => gone.freeSlot
  | _ => gone

def refuseAll (s : State) : State :=
  { s with
    waiters := []
    callers := s.callers.map fun c =>
      if c.phase == .queued then { c with phase := .refused } else c }

/-- Closes the pool and its idle connections. Connections in use are closed when they come back. -/
def close (s : State) : State :=
  { s.refuseAll.takeBack s.idle.length with
    closed := true
    idle := []
    dropped := s.dropped ++ s.idle.map (·.connection) }

def pass (s : State) (span : Nat) : State := { s with now := s.now + span }

def answer? (s : State) (ticket : Nat) : Option (Result Nat) := s.outcomes.reverse.lookup ticket

def freshTicket (s : State) : Nat := s.asked.foldl (fun n t => max n (t + 1)) 0

def waiting (s : State) : Nat := (s.waiters.filter s.isLive).length

end State

inductive Step where
  | ask (ticket : Nat)
  | receive (ticket : Nat)
  | expire (ticket : Nat)
  | dialed (ticket : Nat) (outcome : Result Unit)
  | release (ticket : Nat)
  | abandon (ticket : Nat)
  | close
  | pass (span : Nat)

/-- One step. A ticket asks only once. -/
def State.step (s : State) : Step → State
  | .ask ticket => if ticket ∈ s.asked then s else s.ask ticket
  | .receive ticket => s.receive ticket
  | .expire ticket => s.expire ticket
  | .dialed ticket outcome => s.dialed ticket outcome
  | .release ticket => s.release ticket
  | .abandon ticket => s.abandon ticket
  | .close => s.close
  | .pass span => s.pass span

def State.run (s : State) (steps : List Step) : State := steps.foldl State.step s

end RemoteCall.Pool
