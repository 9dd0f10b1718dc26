import RemoteCall.Pool.Basic

/-! A pool under named tasks, in time that moves only on demand.

Tasks run in the order in which they became ready, each until it has to wait. -/
namespace RemoteCall.Pool

structure Dial where
  delay : Nat := 0
  outcome : Result Unit := .ok ()
deriving Inhabited

/-- A time at which a task goes on, with the outcome of its dial if it is dialing. -/
structure Timer where
  due : Int
  ticket : Nat
  outcome : Result Unit

structure Session where
  pool : State
  /-- The latest ticket of each name. -/
  names : List (String × Nat) := []
  tickets : Nat := 0
  ready : List Nat := []
  aborted : List Nat := []
  timers : List Timer := []
  plans : List Dial := []
  reported : Nat := 0
  droppedBefore : Nat := 0
deriving Inhabited

inductive Command where
  | get (name : String)
  | release (name : String)
  | drop (name : String)
  | cancel (name : String)
  | plan (dials : List Dial)
  | advance (span : Nat)
  | close

structure Report where
  finished : List (String × Result Nat)
  closed : List Nat
  dialed : Nat
  opened : Nat
  idle : Nat
  waiters : Nat

namespace Session

def ticket? (s : Session) (name : String) : Option Nat := s.names.lookup name

/-- Callers that can go on after a step and could not before it, in the order of the line. -/
def woken (before after : State) : List Nat :=
  before.waiters.filter fun w => before.isLive w && !after.isLive w && (after.phase? w).isSome

/-- Applies a change of the pool; callers that were given something become ready. -/
def change (s : Session) (f : State → State) : Session :=
  let pool := f s.pool
  { s with pool, ready := s.ready ++ woken s.pool pool }

/-- Sets the timer that the new phase of a task needs. A dial without delay ends at once. -/
def arm (s : Session) (ticket : Nat) : Session :=
  match s.pool.phase? ticket with
  | some .queued =>
    match s.pool.config.waitTimeout with
    | some wait =>
      let due := Clock.timerTick (s.pool.now + wait.nanos)
      if due ≤ s.pool.now then s.change fun p => p.expire ticket
      else { s with timers := s.timers ++ [⟨due, ticket, .ok ()⟩] }
    | none => s
  | some (.dialing _) =>
    let dial := s.plans.headD {}
    let s := { s with plans := s.plans.drop 1 }
    if dial.delay == 0 then s.change fun p => p.dialed ticket dial.outcome
    else { s with timers := s.timers ++
      [⟨Clock.timerTick (s.pool.now + dial.delay), ticket, dial.outcome⟩] }
  | _ => s

def poll (s : Session) (ticket : Nat) : Session :=
  let timer := s.timers.find? fun t => t.ticket == ticket
  let quiet := { s with timers := s.timers.filter fun t => t.ticket != ticket }
  if s.aborted.contains ticket then quiet.change fun p => p.abandon ticket
  else match s.pool.phase? ticket with
    | none => (s.change fun p => p.ask ticket).arm ticket
    | some (.handed _) | some .refused => (quiet.change fun p => p.receive ticket).arm ticket
    | some .queued =>
      if timer.any fun t => t.due ≤ s.pool.now then quiet.change fun p => p.expire ticket else s
    | some (.dialing _) =>
      match timer with
      | some t =>
        if t.due ≤ s.pool.now then quiet.change fun p => p.dialed ticket t.outcome else s
      | none => s
    | some (.holding _) => s

/-- Runs the ready tasks. Each poll uses up one entry and a task is woken at most a few times, so
the fuel bounds the rounds far beyond what can be needed. -/
def settle : (fuel : Nat) → Session → Session
  | 0, s => s
  | fuel + 1, s =>
    match s.ready with
    | [] => s
    | t :: rest => settle fuel ({ s with ready := rest }.poll t)

def settled (s : Session) : Session := s.settle (8 * (s.tickets + 1) + s.ready.length)

def dueTasks (s : Session) : List Nat :=
  ((s.timers.filter fun t => t.due ≤ s.pool.now).mergeSort fun a b => a.due ≤ b.due).map (·.ticket)

/-- Moves the time to an instant, from one timer to the next; what a timer wakes runs at its time.
Each round but the last uses up a timer. -/
def moveTo (target : Int) : (fuel : Nat) → Session → Session
  | 0, s => s.change fun p => { p with now := target }
  | fuel + 1, s =>
    match ((s.timers.map (·.due)).filter fun d => d < target).min? with
    | none => s.change fun p => { p with now := target }
    | some due =>
      let s := s.change fun p => { p with now := max p.now due }
      moveTo target fuel ({ s with ready := s.ready ++ s.dueTasks }.settled)

def advance (s : Session) (span : Nat) : Session :=
  let s := s.moveTo (s.pool.now + span) (4 * (s.tickets + 1))
  { s with ready := s.ready ++ s.dueTasks }

def perform (s : Session) : Command → Session
  | .get name =>
    { s with
      names := (name, s.tickets) :: s.names
      tickets := s.tickets + 1
      ready := s.ready ++ [s.tickets] }
  | .release name => (s.ticket? name).elim s fun t => s.change fun p => p.release t
  | .drop name => (s.ticket? name).elim s fun t =>
      match s.pool.phase? t with
      | some (.holding _) => s.change fun p => p.abandon t
      | _ => s
  | .cancel name => (s.ticket? name).elim s fun t =>
      match s.pool.phase? t with
      | some (.holding _) => s
      | _ => { s with aborted := t :: s.aborted, ready := s.ready ++ [t] }
  | .plan dials => { s with plans := s.plans ++ dials }
  | .advance span => s.settled.advance span
  | .close => s.change State.close

def nameOf (s : Session) (ticket : Nat) : String :=
  ((s.names.find? fun e => e.2 == ticket).map (·.1)).getD ""

def report (s : Session) : Session × Report :=
  let s := s.settled
  let finished := (s.pool.outcomes.drop s.reported).map fun (t, r) => (s.nameOf t, r)
  ({ s with reported := s.pool.outcomes.length, droppedBefore := s.pool.dropped.length },
   { finished := finished.mergeSort fun a b => a.1 ≤ b.1
     closed := (s.pool.dropped.drop s.droppedBefore).mergeSort
     dialed := s.pool.next - 1
     opened := s.pool.admitted
     idle := s.pool.idle.length
     waiters := s.pool.waiting })

end Session
end RemoteCall.Pool
