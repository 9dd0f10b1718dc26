import RemoteCall.Cluster.Broadcast
import RemoteCall.Context.Cancellation

/-! A broadcast for its first success under way: the branches have a cancellation scope of their
own, and the caller reads their replies until one has no error.

The caller's context may finish at any time, and others cancel scopes and make new ones meanwhile.
-/
namespace RemoteCall

structure Fastest (σ : Type) where
  broadcast : Broadcast σ
  /-- The context of the caller. -/
  context : Context
  /-- The scope of the branches, made under that of the caller. -/
  branchScope : Nat
  scopes : Cancellation
  /-- The last failure that the caller has read. -/
  last : Option (Result Response) := none
  answer : Option (Result Response) := none

namespace Fastest
variable {σ : Type}

inductive Action (σ : Type) where
  /-- The broadcast goes on. Only the caller reads its stream. -/
  | broadcast (a : Broadcast.Action σ)
  /-- The caller takes the next reply, or learns that there are no more. -/
  | take
  /-- The caller learns that its context is finished. -/
  | finish (e : Error)
  /-- Somebody else cancels a scope. -/
  | cancel (scope : Nat)
  /-- Somebody else makes a scope, under another one or alone. -/
  | nest (parent : Option Nat)

def start (clock : Clock) (state : σ) (calls : Calls σ) (context : Context)
    (scopes : Cancellation) : Fastest σ where
  broadcast := .start clock state calls
  context
  branchScope := (scopes.add (some context.scope)).1
  scopes := (scopes.add (some context.scope)).2

def isReading (s : Fastest σ) : Bool := s.answer.isNone && s.broadcast.hasReader

/-- The branches are cancelled, and the caller leaves with an answer. -/
def stop (s : Fastest σ) (outcome : Result Response) : Fastest σ := { s with
  broadcast.stream := s.broadcast.stream.close
  scopes := s.scopes.cancel s.branchScope
  answer := some outcome }

/-- A success is the answer; a failure is only remembered. -/
def heed (s : Fastest σ) (reply : InstanceReply) : Fastest σ :=
  if Cluster.hasFailed reply.outcome then { s with last := some reply.outcome }
    else s.stop reply.outcome

def take? (s : Fastest σ) : Option (Fastest σ) :=
  if s.isReading then
    match s.broadcast.stream.receive? with
    | some (some reply, stream) =>
      some ({ s with
        broadcast.stream := stream
        broadcast.received := s.broadcast.received ++ [reply] }.heed reply)
    | some (none, _) =>
      some { s with
        broadcast.ended := true
        answer := some (s.last.getD (.error Cluster.noReplies)) }
    | none => none
  else none

def isFinished (s : Fastest σ) (e : Error) : Bool :=
  e == Context.canceledError && s.scopes.isCancelled s.context.scope ||
    e == Context.deadlineError && s.context.isExpired s.broadcast.clock.mono

def step? (s : Fastest σ) : Action σ → Option (Fastest σ)
  | .broadcast .read | .broadcast .hangUp => none
  | .broadcast a => (s.broadcast.step? a).map fun broadcast => { s with broadcast }
  | .take => s.take?
  | .finish e => if s.isReading && s.isFinished e then some (s.stop (.error e)) else none
  | .cancel scope => some { s with scopes := s.scopes.cancel scope }
  | .nest parent => some { s with scopes := (s.scopes.add parent).2 }

def run? (s : Fastest σ) (actions : List (Action σ)) : Option (Fastest σ) := actions.foldlM step? s

end Fastest

end RemoteCall
