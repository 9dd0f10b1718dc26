import RemoteCall.Codes
import RemoteCall.Payload.Document

/-! Instances of services, as registries announce them. -/
namespace RemoteCall

/-- A running process that serves a named service at an address. Name and address identify it;
weight and group only steer the choice among instances. -/
structure Instance where
  name : String
  address : String
  weight : Option UInt32 := none
  group : Option String := none
deriving DecidableEq, Repr, Inhabited

namespace Instance

/-- An instance without a weight counts as one of weight 1. -/
def effectiveWeight (i : Instance) : UInt32 := i.weight.getD 1

def sameIdentity (a b : Instance) : Bool := a.name == b.name && a.address == b.address

end Instance

/-- Absent options are not written. -/
instance : Encodable Instance := ⟨fun i => do
  let option (name : String) (d : Option Document) := (d.map fun d => (name, .ok d)).toList
  Encodable.record <|
    [("name", Encodable.toDocument i.name), ("address", Encodable.toDocument i.address)] ++
    option "weight" (i.weight.map fun w => .nat w.toNat) ++ option "group" (i.group.map .text)⟩

instance : Decodable Instance := ⟨fun levels d => do
  match ← d.fields? ["name", "address", "weight", "group"] with
  | [name, address, weight, group] =>
    pure {
      name := ← Decodable.required levels name
      address := ← Decodable.required levels address
      weight := ← Decodable.withDefault levels none weight
      group := ← Decodable.withDefault levels none group }
  | _ => none⟩

structure Event where
  type : EventType
  inst : Instance
deriving DecidableEq, Repr, Inhabited

end RemoteCall
