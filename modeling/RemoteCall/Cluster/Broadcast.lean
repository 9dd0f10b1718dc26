import RemoteCall.Cluster

/-! A broadcast under way: one branch for each ready instance, and the stream on which the branches
tell their replies.

Branches go on in any order, while time passes, others change what all share, and a reader takes
replies whenever it likes. -/
namespace RemoteCall

/-- A queue with room for so many items, from several senders to one receiver. -/
structure Channel (α : Type) where
  room : Nat
  /-- The oldest item first. -/
  waiting : List α := []
  senders : Nat := 1
  /-- The receiver is there. -/
  isOpen : Bool := true

namespace Channel
variable {α : Type}

/-- Takes an item if there is room for it, and drops it if there is no receiver; else the sender
waits. -/
def send? (c : Channel α) (a : α) : Option (Channel α) :=
  if !c.isOpen then some c
  else if c.waiting.length < c.room then some { c with waiting := c.waiting ++ [a] }
  else none

/-- Yields the oldest item, or the end if nobody can send any more; else the receiver waits. -/
def receive? (c : Channel α) : Option (Option α × Channel α) :=
  match c.waiting with
  | a :: rest => some (some a, { c with waiting := rest })
  | [] => if c.senders == 0 then some (none, c) else none

def addSender (c : Channel α) : Channel α := { c with senders := c.senders + 1 }

def dropSender (c : Channel α) : Channel α := { c with senders := c.senders - 1 }

def close (c : Channel α) : Channel α := { c with waiting := [], isOpen := false }

end Channel

abbrev Calls (σ : Type) := List (String × Work σ (Result Response))

namespace Broadcast
variable {σ : Type}

inductive Stage (σ : Type) where
  /-- What is left of its call, and since when. -/
  | calling (since : Int) (call : Work σ (Result Response))
  | telling (outcome : Result Response)
  /-- The reply is in the stream, and the branch could still send more. -/
  | told (outcome : Result Response)
  | gone (outcome : Result Response)
  /-- The call has broken down, and the branch with it. -/
  | lost

structure Branch (σ : Type) where
  address : String
  stage : Stage σ

namespace Branch

def outcome? (b : Branch σ) : Option (Result Response) :=
  match b.stage with
  | .calling _ _ | .lost => none
  | .telling outcome | .told outcome | .gone outcome => some outcome

def hasTold (b : Branch σ) : Bool :=
  match b.stage with
  | .calling _ _ | .telling _ | .lost => false
  | .told _ | .gone _ => true

def isLost (b : Branch σ) : Bool :=
  match b.stage with
  | .lost => true
  | _ => false

/-- The branch is through or lost, and has no sender. -/
def isGone (b : Branch σ) : Bool :=
  match b.stage with
  | .gone _ | .lost => true
  | _ => false

def go? (b : Branch σ) (clock : Clock) (state : σ) : Option (Branch σ × σ) :=
  match b.stage with
  | .calling since call =>
    match call with
    | .done outcome => some ({ b with stage := .telling outcome }, state)
    | .act f next => some ({ b with stage := .calling clock.mono (next state) }, f state)
    | .clock next => some ({ b with stage := .calling clock.mono (next clock) }, state)
    | .wait span next =>
      if since + span ≤ clock.mono then some
        ({ b with stage := .calling clock.mono next }, state) else none
    | .never | .crash => none
  | _ => none

/-- A branch goes that is through, or whose call has broken down. -/
def leave? (b : Branch σ) : Option (Branch σ) :=
  match b.stage with
  | .told outcome => some { b with stage := .gone outcome }
  | .calling _ .crash => some { b with stage := .lost }
  | _ => none

end Branch

inductive Action (σ : Type) where
  /-- The next branch begins; after the last one the stream is handed out. -/
  | launch
  /-- The call of a branch goes on. -/
  | go (i : Nat)
  /-- A branch sends its reply. -/
  | tell (i : Nat)
  /-- A branch goes, and with it its sender. -/
  | leave (i : Nat)
  /-- The reader takes a reply, or learns that there are no more. -/
  | read
  /-- The reader loses interest. -/
  | hangUp
  | pass (span : Nat)
  /-- Somebody else does something, such as an update of the instances. -/
  | others (f : σ → σ)

end Broadcast

open Broadcast in
structure Broadcast (σ : Type) where
  clock : Clock
  state : σ
  /-- The calls that are still to begin. Once the stream is handed out, there is nothing here. -/
  pending : Option (Calls σ)
  branches : List (Branch σ) := []
  stream : Channel InstanceReply
  /-- What the reader has got. -/
  received : List InstanceReply := []
  /-- The reader knows that there are no more replies. -/
  ended : Bool := false

namespace Broadcast
variable {σ : Type}

/-- The stream has room for one reply of each call. -/
def start (clock : Clock) (state : σ) (calls : Calls σ) : Broadcast σ :=
  { clock, state, pending := some calls, stream := { room := calls.length } }

def launch? (s : Broadcast σ) : Option (Broadcast σ) :=
  match s.pending with
  | none => none
  | some [] => some { s with pending := none, stream := s.stream.dropSender }
  | some ((address, call) :: rest) => some { s with
      pending := some rest
      branches := s.branches ++ [⟨address, .calling s.clock.mono call⟩]
      stream := s.stream.addSender }

def go? (s : Broadcast σ) (i : Nat) : Option (Broadcast σ) := do
  let b ← s.branches[i]?
  let (b, state) ← b.go? s.clock s.state
  pure { s with state, branches := s.branches.set i b }

def tell? (s : Broadcast σ) (i : Nat) : Option (Broadcast σ) :=
  match s.branches[i]? with
  | some ⟨address, .telling outcome⟩ => do
    let stream ← s.stream.send? ⟨address, outcome⟩
    pure { s with stream, branches := s.branches.set i ⟨address, .told outcome⟩ }
  | _ => none

def leave? (s : Broadcast σ) (i : Nat) : Option (Broadcast σ) := do
  let b ← s.branches[i]?
  let b ← b.leave?
  pure { s with stream := s.stream.dropSender, branches := s.branches.set i b }

/-- The reader has the stream and does not know it ended. -/
def hasReader (s : Broadcast σ) : Bool := s.pending.isNone && s.stream.isOpen && !s.ended

def read? (s : Broadcast σ) : Option (Broadcast σ) :=
  if s.hasReader then
    match s.stream.receive? with
    | some (some reply, stream) => some { s with stream, received := s.received ++ [reply] }
    | some (none, _) => some { s with ended := true }
    | none => none
  else none

def hangUp? (s : Broadcast σ) : Option (Broadcast σ) :=
  if s.hasReader then some { s with stream := s.stream.close } else none

def step? (s : Broadcast σ) : Action σ → Option (Broadcast σ)
  | .launch => s.launch?
  | .go i => s.go? i
  | .tell i => s.tell? i
  | .leave i => s.leave? i
  | .read => s.read?
  | .hangUp => s.hangUp?
  | .pass span => some { s with clock := s.clock.advance span }
  | .others f => some { s with state := f s.state }

def run? (s : Broadcast σ) (actions : List (Action σ)) : Option (Broadcast σ) :=
  actions.foldlM step? s

end Broadcast

end RemoteCall
