/-! Cancellation scopes. A scope is cancelled on its own or with any scope that it was made under,
also when it is made afterwards. -/
namespace RemoteCall

/-- The scope that each scope was made under, and the scopes that were cancelled on their own. -/
structure Cancellation where
  parents : List (Option Nat) := []
  cancelled : List Nat := []
deriving DecidableEq, Repr, Inhabited

namespace Cancellation

def add (c : Cancellation) (parent : Option Nat) : Nat × Cancellation :=
  (c.parents.length, { c with parents := c.parents ++ [parent] })

def cancel (c : Cancellation) (scope : Nat) : Cancellation :=
  { c with cancelled := scope :: c.cancelled }

/-- A scope is always made after the one above it. -/
def isCancelled (c : Cancellation) (scope : Nat) : Bool :=
  c.cancelled.contains scope ||
    match c.parents[scope]? with
    | some (some parent) => if parent < scope then isCancelled c parent else false
    | _ => false
termination_by scope

end Cancellation
end RemoteCall
