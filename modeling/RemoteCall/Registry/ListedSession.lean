import RemoteCall.Registry.Listed
import RemoteCall.Registry.Seen

/-! A listed registry under named subscriptions. -/
namespace RemoteCall.ListedRegistry

structure Session where
  registry : ListedRegistry := {}
  /-- The subscriptions that are still looked at. -/
  names : List (String × Nat) := []
deriving Inhabited

namespace Session

def drop (s : Session) (name : String) : Session :=
  match s.names.lookup name with
  | some n => { registry := s.registry.leave n, names := s.names.filter fun e => e.1 != name }
  | none => s

/-- Subscribes under a name; the former subscription of that name is dropped. -/
def subscribe (s : Session) (name service : String) : Session :=
  let s := s.drop name
  let (registry, n) := s.registry.subscribe service
  { registry, names := s.names ++ [(name, n)] }

def report (s : Session) : Session × Seen Event :=
  (s.names.mergeSort fun a b => a.1 ≤ b.1).foldl (fun (s, seen) (name, n) =>
    let (events, registry) := s.registry.receiveAll n
    let ended := (registry.subscription n).hasEnded
    ({ registry, names := if ended then s.names.filter fun e => e.1 != name else s.names },
     seen.add name events ended)) (s, {})

end Session
end RemoteCall.ListedRegistry
