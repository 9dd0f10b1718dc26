import RemoteCall.Registry.Listed

/-! A listed registry with all who subscribe to it, and the events on their way to them.

What the registry sends to a subscription is taken by a forwarder, which passes it on to where a
bounded number of events wait for the subscriber. Each action below is one uninterrupted action of
the registry, of a forwarder or of a subscriber; what happens in between is any order of actions. -/
namespace RemoteCall

structure Follower where
  /-- An event that the forwarder is to pass on. -/
  inHand : Option Event := none
  /-- Events passed on and not yet received, the oldest first. -/
  queue : List Event := []
  /-- What was received, the oldest first. -/
  received : List Event := []
  /-- The subscriber is gone. -/
  left : Bool := false
deriving DecidableEq, Repr, Inhabited

namespace Follower

def queueCapacity : Nat := 64

def receive (f : Follower) : Follower :=
  match f.queue with
  | e :: rest => { f with queue := rest, received := f.received ++ [e] }
  | [] => f

def leave (f : Follower) : Follower := { f with queue := [], left := true }

end Follower

structure FollowedList where
  registry : ListedRegistry
  /-- By the numbers of their subscriptions. -/
  followers : List Follower := []
deriving DecidableEq

namespace FollowedList

inductive Action where
  | register (i : Instance)
  | unregister (i : Instance)
  | update (instances : List Instance)
  | close
  | subscribe (service : String)
  /-- The forwarder of a subscription takes the next event. -/
  | take (k : Nat)
  /-- It passes on what it has in hand, or finds that nobody is there to take it. -/
  | pass (k : Nat)
  | receive (k : Nat)
  | leave (k : Nat)
deriving DecidableEq

def new (instances : List Instance) : FollowedList := { registry := { instances } }

def onFollower (s : FollowedList) (k : Nat) (f : Follower → Follower) : FollowedList :=
  { s with followers := s.followers.modify k f }

def take (s : FollowedList) (k : Nat) : FollowedList :=
  match s.followers[k]?, s.registry.receive k with
  | some ⟨none, _, _, _⟩, (some e, registry) => { s with registry }.onFollower k fun f =>
    { f with inHand := some e }
  | _, _ => s

/-- Without a subscriber, the forwarder ends its subscription. -/
def pass (s : FollowedList) (k : Nat) : FollowedList :=
  match s.followers[k]? with
  | some ⟨some e, queue, _, left⟩ =>
    if left then { s with registry := s.registry.leave k }.onFollower k fun f =>
      { f with inHand := none }
    else if queue.length < Follower.queueCapacity then
      s.onFollower k fun f => { f with inHand := none, queue := f.queue ++ [e] }
    else s
  | _ => s

def step (s : FollowedList) : Action → FollowedList
  | .register i => { s with registry := s.registry.register i }
  | .unregister i => { s with registry := s.registry.unregister i }
  | .update instances => { s with registry := s.registry.update instances }
  | .close => { s with registry := s.registry.close }
  | .subscribe service =>
    { registry := (s.registry.subscribe service).1, followers := s.followers ++ [{}] }
  | .take k => s.take k
  | .pass k => s.pass k
  | .receive k => s.onFollower k Follower.receive
  | .leave k => s.onFollower k Follower.leave

def run (s : FollowedList) (actions : List Action) : FollowedList := actions.foldl step s

def received (s : FollowedList) (k : Nat) : List Event :=
  (s.followers[k]?.map Follower.received).getD []

def onTheWay (s : FollowedList) (k : Nat) : List Event :=
  (s.followers[k]?.map fun f => f.queue ++ f.inHand.toList).getD [] ++
    (s.registry.subscription k).waiting

def announced (s : FollowedList) : Action → List Event
  | .register i => [⟨.add, i⟩]
  | .unregister i => if s.registry.instances.any fun old =>
    old.sameIdentity i then [⟨.delete, i⟩] else []
  | .update instances => ListedRegistry.changes s.registry.instances instances
  | _ => []

def announcements (s : FollowedList) : List Action → List Event
  | [] => []
  | a :: rest => s.announced a ++ (s.step a).announcements rest

end FollowedList

/-- A copy of a list after an event: an addition takes the place of what has its identity, a
deletion takes that out. -/
def Event.replay (instances : List Instance) (e : Event) : List Instance :=
  let others := instances.filter fun i => !i.sameIdentity e.inst
  match e.type with
  | .add => others ++ [e.inst]
  | .delete => others
  | .unknown => instances

end RemoteCall
