import RemoteCall.Connection.Link
import RemoteCall.Data.Table
import RemoteCall.Pool.Basic

/-! Calls over pooled connections, byte by byte.

A call asks the pool for a connection, writes its frame and, unless it is one-way, reads a frame.
Its connection goes back to the pool unless the call failed in the midst of this, or its context
finished first: then it is closed. Each move below is one uninterrupted action of a call, of a peer
or of the pool; what happens in between is any order of moves. -/
namespace RemoteCall

inductive Stage where
  /-- Nothing was written yet. -/
  | asking
  /-- What is left to write on a connection. -/
  | writing (c : Nat) (rest : ByteArray)
  /-- What was read of a connection so far. -/
  | reading (c : Nat) (got : ByteArray)
  | ended (outcome : Result Response)

structure Exchange where
  request : Request
  stage : Stage

structure Wires where
  links : Table Link := {}
  exchanges : Table Exchange := {}
deriving Inhabited

structure Traffic extends Wires where
  pool : Pool.State
deriving Inhabited

inductive Move where
  | ask (ticket : Nat) (request : Request)
  | receive (ticket : Nat)
  | expire (ticket : Nat)
  | dialed (ticket : Nat) (outcome : Result Unit)
  /-- The call goes on with what the pool answered. -/
  | proceed (ticket : Nat)
  | write (ticket n : Nat)
  | read (ticket n : Nat)
  /-- Writing or reading fails. -/
  | fail (ticket : Nat) (fault : StreamFault) (text : String)
  /-- The context of the call finishes. -/
  | cut (ticket : Nat) (e : Error)
  | handle (c : Nat) (frame : ByteArray) (h : Handled)
  | hangUp (c arriving : Nat)
  | close
  | pass (span : Nat)

def mismatch (response request : UInt32) : Error :=
  ⟨.protocol, s!"response {response.toNat} does not answer request {request.toNat}"⟩

/-- The response in a frame, if it answers the request. -/
def Request.accept (request : Request) (frame : ByteArray) : Result Response := do
  let response ← Response.decode frame
  if response.codes.messageId == request.codes.messageId then pure response
  else .error (mismatch response.codes.messageId request.codes.messageId)

namespace Traffic

def ofConfig (config : PoolConfig) : Result Traffic := do
  pure { pool := ← Pool.State.ofConfig config }

def stage? (s : Traffic) (ticket : Nat) : Option Stage := (s.exchanges.get? ticket).map (·.stage)

def link (s : Traffic) (c : Nat) : Link := (s.links.get? c).getD { ended := true }

def setLink (s : Traffic) (c : Nat) (l : Link) : Traffic := { s with links := s.links.set c l }

def put (s : Traffic) (ticket : Nat) (x : Exchange) : Traffic :=
  { s with exchanges := s.exchanges.set ticket x }

def stepPool (s : Traffic) (x : Pool.Step) : Traffic := { s with pool := s.pool.step x }

def finish (s : Traffic) (ticket : Nat) (request : Request) (outcome : Result Response) : Traffic :=
  let s := s.put ticket ⟨request, .ended outcome⟩
  match outcome with
  | .ok _ => s.stepPool (.release ticket)
  | .error e => s.stepPool (if e.isConnectionFatal then .abandon ticket else .release ticket)

def ask (s : Traffic) (ticket : Nat) (request : Request) : Traffic :=
  if ticket ∈ s.pool.asked then s else (s.put ticket ⟨request, .asking⟩).stepPool (.ask ticket)

def dialed (s : Traffic) (ticket : Nat) (outcome : Result Unit) : Traffic :=
  match s.pool.phase? ticket, outcome with
  | some (.dialing c), .ok () => (s.setLink c {}).stepPool (.dialed ticket (.ok ()))
  | _, outcome => s.stepPool (.dialed ticket outcome)

def proceed (s : Traffic) (ticket : Nat) : Traffic :=
  match s.exchanges.get? ticket with
  | some ⟨request, .asking⟩ =>
    match s.pool.phase? ticket, s.pool.answer? ticket with
    | some (.holding c), _ =>
      match request.encode with
      | .ok frame => s.put ticket ⟨request, .writing c frame⟩
      | .error e => s.finish ticket request (.error e)
    | none, some (.error e) => s.put ticket ⟨request, .ended (.error e)⟩
    | _, _ => s
  | _ => s

def write (s : Traffic) (ticket n : Nat) : Traffic :=
  match s.exchanges.get? ticket with
  | some ⟨request, .writing c rest⟩ =>
    let l := (s.link c).write (rest.extract 0 n)
    if rest.size ≤ n then
      let s := s.setLink c (l.sign ⟨ticket, request⟩)
      if request.isOneway then s.finish ticket request (.ok (.replyTo request))
      else s.put ticket ⟨request, .reading c .empty⟩
    else (s.setLink c l).put ticket ⟨request, .writing c (rest.extract n rest.size)⟩
  | _ => s

/-- No byte is read past the end of a frame. -/
def read (s : Traffic) (ticket n : Nat) : Traffic :=
  match s.exchanges.get? ticket with
  | some ⟨request, .reading c got⟩ =>
    let l := s.link c
    let all := got ++ l.unread.extract 0 n
    let left := l.unread.extract n l.unread.size
    match Stream.readFrame all 0 with
    | .ok (frame, next) =>
      (s.setLink c { l with unread := all.extract next all.size ++ left }).finish ticket request
        (request.accept frame)
    | .error .ended =>
      if l.ended && l.unread.isEmpty then s.finish ticket request (.error Malformed.ended.toError)
      else (s.setLink c { l with unread := left }).put ticket ⟨request, .reading c all⟩
    | .error m => s.finish ticket request (.error m.toError)
  | _ => s

def fail (s : Traffic) (ticket : Nat) (e : Error) : Traffic :=
  match s.exchanges.get? ticket with
  | some ⟨request, .writing _ _⟩ | some ⟨request, .reading _ _⟩ =>
    s.finish ticket request (.error e)
  | _ => s

/-- Wherever the call stands, what it has of the pool is given up. -/
def cut (s : Traffic) (ticket : Nat) (e : Error) : Traffic :=
  match s.exchanges.get? ticket with
  | none | some ⟨_, .ended _⟩ => s
  | some ⟨request, _⟩ => (s.put ticket ⟨request, .ended (.error e)⟩).stepPool (.abandon ticket)

def onLink (s : Traffic) (c : Nat) (f : Link → Link) : Traffic :=
  match s.links.get? c with
  | some l => s.setLink c (f l)
  | none => s

def step (s : Traffic) : Move → Traffic
  | .ask ticket request => s.ask ticket request
  | .receive ticket => s.stepPool (.receive ticket)
  | .expire ticket => s.stepPool (.expire ticket)
  | .dialed ticket outcome => s.dialed ticket outcome
  | .proceed ticket => s.proceed ticket
  | .write ticket n => s.write ticket n
  | .read ticket n => s.read ticket n
  | .fail ticket fault text => s.fail ticket (fault.toError text)
  | .cut ticket e => s.cut ticket e
  | .handle c frame h => s.onLink c fun l => l.handle frame h
  | .hangUp c arriving => s.onLink c fun l => l.hangUp arriving
  | .close => s.stepPool .close
  | .pass span => s.stepPool (.pass span)

def run (s : Traffic) (moves : List Move) : Traffic := moves.foldl step s

end Traffic
end RemoteCall
