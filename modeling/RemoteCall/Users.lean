import RemoteCall.Error
import RemoteCall.Payload.Document
import RemoteCall.Reply

/-! The user table: a small service of three methods, served from memory. -/
namespace RemoteCall.Users

structure User where
  id : UInt64 := 0
  name : String := ""
deriving DecidableEq, Repr, Inhabited

instance : Encodable User := ⟨fun u => Encodable.record [
  ("id", Encodable.toDocument u.id), ("name", Encodable.toDocument u.name)]⟩

instance : Decodable User := ⟨fun levels d => do
  match ← d.fields? ["id", "name"] with
  | [id, name] =>
    pure { id := ← Decodable.required levels id, name := ← Decodable.required levels name }
  | _ => none⟩

structure Lookup where
  id : UInt64 := 0
deriving DecidableEq, Repr, Inhabited

instance : Encodable Lookup := ⟨fun r => Encodable.record [("id", Encodable.toDocument r.id)]⟩

instance : Decodable Lookup := ⟨fun levels d => do
  match ← d.fields? ["id"] with
  | [id] => pure { id := ← Decodable.required levels id }
  | _ => none⟩

structure Found where
  user : User := {}
  servedBy : String := ""
deriving DecidableEq, Repr, Inhabited

instance : Encodable Found := ⟨fun r => Encodable.record [
  ("user", Encodable.toDocument r.user), ("served_by", Encodable.toDocument r.servedBy)]⟩

instance : Decodable Found := ⟨fun levels d => do
  match ← d.fields? ["user", "served_by"] with
  | [user, servedBy] =>
    pure
      { user := ← Decodable.required levels user
        servedBy := ← Decodable.required levels servedBy }
  | _ => none⟩

structure Selection where
  ids : List UInt64 := []
deriving DecidableEq, Repr, Inhabited

instance : Encodable Selection := ⟨fun r => Encodable.record [("ids", Encodable.toDocument r.ids)]⟩

instance : Decodable Selection := ⟨fun levels d => do
  match ← d.fields? ["ids"] with
  | [ids] => pure { ids := ← Decodable.required levels ids }
  | _ => none⟩

structure Exported where
  users : List User := []
deriving DecidableEq, Repr, Inhabited

instance : Encodable Exported :=
  ⟨fun r => Encodable.record [("users", Encodable.toDocument r.users)]⟩

instance : Decodable Exported := ⟨fun levels d => do
  match ← d.fields? ["users"] with
  | [users] => pure { users := ← Decodable.required levels users }
  | _ => none⟩

structure Nap where
  millis : UInt64 := 0
deriving DecidableEq, Repr, Inhabited

instance : Encodable Nap := ⟨fun r => Encodable.record [("millis", Encodable.toDocument r.millis)]⟩

instance : Decodable Nap := ⟨fun levels d => do
  match ← d.fields? ["millis"] with
  | [millis] => pure { millis := ← Decodable.required levels millis }
  | _ => none⟩

/-- A user table that answers as a named instance. A broken one finds nobody. -/
structure Table where
  instanceName : String
  broken : Bool := false
deriving DecidableEq, Repr, Inhabited

def known : List User := [⟨1, "alice"⟩, ⟨2, "bob"⟩, ⟨3, "carol"⟩]

def user? (id : UInt64) : Option User := known.find? fun u => u.id == id

def unknownUser (id : UInt64) : Error := ⟨.other, s!"no user {id.toNat}"⟩

namespace Table

def getById (t : Table) (r : Lookup) : Result Found :=
  if t.broken then .error ⟨.other, t.instanceName ++ ": user table unavailable"⟩
  else match user? r.id with
    | some u => .ok ⟨u, t.instanceName⟩
    | none => .error (unknownUser r.id)

/-- The users in order up to the first unknown id, which adds an error to them. -/
def exportFrom (found : List User) : List UInt64 → Reply Exported
  | [] => .ofValue ⟨found⟩
  | id :: rest =>
    match user? id with
    | some u => exportFrom (found ++ [u]) rest
    | none => .both ⟨found⟩ (unknownUser id)

def exportUsers (r : Selection) : Reply Exported := exportFrom [] r.ids

end Table
end RemoteCall.Users
