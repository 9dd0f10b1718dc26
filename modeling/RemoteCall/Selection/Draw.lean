import RemoteCall.Selection.Picker
import RemoteCall.Selection.Sweep

/-! A choice by a drawn number as it goes, in numbers of 64 bits.

The weights are summed up without a sign. The draw is read with one and counted down. -/
namespace RemoteCall.Selection.Draw
variable {α : Type}

/-- A sum, if 64 bits without a sign can hold it. -/
def unsigned64 (x : Nat) : Option Nat := if x < UInt64.size then some x else none

def reread (x : Nat) : Int := (x : Int).bmod UInt64.size

/-- What the items weigh together. None if a sum does not fit. -/
def total (weight : α → UInt32) (items : List α) : Option Nat :=
  items.foldlM (fun sum a => unsigned64 (sum + (weight a).toNat)) 0

/-- Takes off the weights one after the other, up to the first item that leaves nothing. None if a
difference does not fit. -/
def countDown (weight : α → UInt32) : List α → Int → Option (Option α)
  | [], _ => some none
  | a :: rest, left => do
    let left ← Rotation.signed64 (left - (weight a).toNat)
    if left ≤ 0 then pure (some a) else countDown weight rest left

/-- The item that a number from one to the total chooses. None if a number does not fit on the way.
-/
def choose (weight : α → UInt32) (items : List α) (draw : Nat) : Option (Result α) :=
  if items.isEmpty then some (.error noConnection)
  else do
    if (← total weight items) == 0 then pure (.error noWeight)
    else
      match ← countDown weight items (reread draw) with
      | some a => pure (.ok a)
      | none => pure (.error noConnection)

end RemoteCall.Selection.Draw
