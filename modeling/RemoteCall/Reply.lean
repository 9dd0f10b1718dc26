import RemoteCall.Error

/-! What a handler hands back: a value, an error, or both. -/
namespace RemoteCall

/-- A handler that fails may still have a value; both travel to the caller. -/
structure Reply (α : Type) where
  value : Option α := none
  error : Option Error := none
deriving DecidableEq, Repr

namespace Reply
variable {α : Type}

def ofValue (a : α) : Reply α := ⟨some a, none⟩

def ofError (e : Error) : Reply α := ⟨none, some e⟩

def both (a : α) (e : Error) : Reply α := ⟨some a, some e⟩

def ofResult : Result α → Reply α
  | .ok a => ofValue a
  | .error e => ofError e

def isOk (r : Reply α) : Bool := r.error.isNone

/-- Drops a value that came with an error; without an error a missing value is the default one. -/
def toResult (default : α) (r : Reply α) : Result α :=
  match r.error with
  | some e => .error e
  | none => .ok (r.value.getD default)

end Reply
end RemoteCall
