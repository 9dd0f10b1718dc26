import RemoteCall.Payload
import RemoteCall.Registry.Feed
import RemoteCall.Registry.Instance

/-! A registry whose instances are kept in a store, attached to one lease.

The lease is renewed in the background as long as the registry is open. If its process dies, its
instances disappear with the lease. -/
namespace RemoteCall

structure LeasedRegistry where
  lease : Nat
  closed : Bool := false
deriving DecidableEq, Repr, Inhabited

namespace LeasedRegistry

open Store (Change Outcome)

def root : String := "/micro"

def serviceKey (service : String) : String := root ++ "/" ++ service ++ "/"

def instanceKey (i : Instance) : String := serviceKey i.name ++ i.address

def defaultSpan : Duration := .ofSecs 60

/-- A shorter lease is refused, because it could not be renewed in time. -/
def minSpan : Duration := .ofMillis 1

def establish (s : Store) (span : Duration) : Store × Outcome LeasedRegistry :=
  if span.nanos < minSpan.nanos then
    (s, .answer (.error ⟨.config,
      "registry ttl " ++ span.decimalText ++ " is below " ++ minSpan.decimalText⟩))
  else match s.grant span with
    | (s, .answer (.ok lease)) => (s, .answer (.ok { lease }))
    | (s, .answer (.error e)) => (s, .answer (.error e))
    | (s, .crash) => (s, .crash)

/-- A lease is renewed three times in its span. -/
def renewInterval (span : Duration) : Duration := ⟨span.nanos / 3⟩

def instanceText (i : Instance) : Result String :=
  match Encodable.toDocument i with
  | .ok d => .ok (Json.text d)
  | .error text => .error ⟨.serialize, text⟩

def readInstance? (text : String) : Option Instance :=
  (Json.read? text.toUTF8).bind (Decodable.ofDocument? 127)

def register (r : LeasedRegistry) (s : Store) (i : Instance) : Store × Result Unit :=
  match instanceText i with
  | .ok text => s.put (instanceKey i) text (some r.lease)
  | .error e => (s, .error e)

def unregister (s : Store) (i : Instance) : Store × Result Unit := s.delete (instanceKey i)

def badInstance (key : String) : Error :=
  ⟨.registry, "bad instance at " ++ key ++ ": " ++ PayloadFault.json.message⟩

/-- The instances of a service, in the order of their keys; the first entry that holds none is an
error. -/
def list (s : Store) (service : String) : Result (List Instance) := do
  (← s.scan (serviceKey service)).mapM fun (key, text) =>
    match readInstance? text with
    | some i => .ok i
    | none => .error (badInstance key)

def event (service : String) : Change → Event
  | .put _ text =>
    match readInstance? text with
    | some i => ⟨.add, i⟩
    | none => ⟨.unknown, { name := service, address := "" }⟩
  | .delete key =>
    let start := serviceKey service
    ⟨.delete, {
      name := service
      address := if Store.startsWith key start then
        String.ofList (key.toList.drop start.length) else key }⟩

/-- Subscribes to a service. In a closed session the subscription ends at once. -/
def subscribe (r : LeasedRegistry) (s : Store) (service : String) : Feed where
  service
  lease := r.lease
  watch := { Store.Watch.ofScope s (serviceKey service) with cancelled := r.closed }

/-- Ends the session; its instances go with the lease. -/
def close (r : LeasedRegistry) (s : Store) : LeasedRegistry × Store × Result Unit :=
  let (s, result) := s.revoke r.lease
  ({ r with closed := true }, s, result)

end LeasedRegistry
end RemoteCall
