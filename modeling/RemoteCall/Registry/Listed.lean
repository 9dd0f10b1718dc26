import RemoteCall.Registry.Instance

/-! A registry that is a list of instances, changed by hand, and tells its subscribers of the
changes. -/
namespace RemoteCall

structure Subscription where
  service : String
  /-- Events sent and not yet received, the oldest first. -/
  waiting : List Event := []
  /-- More may be sent. -/
  isOpen : Bool := true
deriving DecidableEq, Repr, Inhabited

namespace Subscription

def send (s : Subscription) (e : Event) : Subscription :=
  if s.isOpen && s.service == e.inst.name then { s with waiting := s.waiting ++ [e] } else s

def close (s : Subscription) : Subscription := { s with isOpen := false }

/-- Nothing waits and nothing more will come. -/
def hasEnded (s : Subscription) : Bool := !s.isOpen && s.waiting.isEmpty

end Subscription

structure ListedRegistry where
  instances : List Instance := []
  /-- In the order in which they were opened. -/
  subscriptions : List Subscription := []
deriving DecidableEq, Repr, Inhabited

namespace ListedRegistry

def announce (r : ListedRegistry) (e : Event) : ListedRegistry :=
  { r with subscriptions := r.subscriptions.map fun s => s.send e }

def without (r : ListedRegistry) (inst : Instance) : List Instance :=
  r.instances.filter fun old => !old.sameIdentity inst

/-- Puts an instance at the end of the list, in place of the one of its identity. -/
def register (r : ListedRegistry) (inst : Instance) : ListedRegistry :=
  { r with instances := r.without inst ++ [inst] }.announce ⟨.add, inst⟩

/-- Takes out the instances of an identity; says so only if there was one. -/
def unregister (r : ListedRegistry) (inst : Instance) : ListedRegistry :=
  if r.instances.any fun old => old.sameIdentity inst then
    { r with instances := r.without inst }.announce ⟨.delete, inst⟩
  else r

/-- What a new list changes: first the identities that vanish, then the instances that are new or
have other data. -/
def changes (old new : List Instance) : List Event :=
  ((old.filter fun o => !new.any fun n => n.sameIdentity o).map fun o => ⟨.delete, o⟩) ++
  ((new.filter fun n => !old.contains n).map fun n => ⟨.add, n⟩)

def update (r : ListedRegistry) (instances : List Instance) : ListedRegistry :=
  (changes r.instances instances).foldl announce { r with instances }

def list (r : ListedRegistry) (service : String) : List Instance :=
  r.instances.filter fun i => i.name == service

def subscribe (r : ListedRegistry) (service : String) : ListedRegistry × Nat :=
  ({ r with subscriptions := r.subscriptions ++ [{ service }] }, r.subscriptions.length)

/-- Nothing more is sent to those who have subscribed so far. -/
def close (r : ListedRegistry) : ListedRegistry :=
  { r with subscriptions := r.subscriptions.map Subscription.close }

def subscription (r : ListedRegistry) (n : Nat) : Subscription :=
  r.subscriptions[n]?.getD { service := "", isOpen := false }

def receive (r : ListedRegistry) (n : Nat) : Option Event × ListedRegistry :=
  ((r.subscription n).waiting.head?,
   { r with subscriptions := r.subscriptions.modify n fun s =>
     { s with waiting := s.waiting.drop 1 } })

def receiveAll (r : ListedRegistry) (n : Nat) : List Event × ListedRegistry :=
  ((r.subscription n).waiting,
   { r with subscriptions := r.subscriptions.modify n fun s => { s with waiting := [] } })

def leave (r : ListedRegistry) (n : Nat) : ListedRegistry :=
  { r with subscriptions := r.subscriptions.modify n fun s =>
    { s with waiting := [], isOpen := false } }

end ListedRegistry
end RemoteCall
