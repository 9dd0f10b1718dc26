/-! Rotation in proportion to weights, spread evenly.

Each round every admitted node gains its effective weight, the node with the highest balance is
chosen, and pays what the round handed out. So the balances of all nodes always sum to zero. -/
namespace RemoteCall.Selection

structure Node where
  endpoint : Nat
  weight : UInt32
  balance : Int := 0
  /-- Lowered by failed calls, raised by successful ones up to the weight. -/
  effective : UInt32
deriving DecidableEq, Repr, Inhabited

namespace Rotation

def gain (n : Node) : Int := n.effective.toNat

def credit (admits : Nat → Bool) (nodes : List Node) : List Node :=
  nodes.map fun n => if admits n.endpoint then { n with balance := n.balance + gain n } else n

def total (admits : Nat → Bool) (nodes : List Node) : Int :=
  (nodes.filter fun n => admits n.endpoint).foldr (fun n sum => gain n + sum) 0

/-- The position of the first admitted node with the highest balance. -/
def leader? (admits : Nat → Bool) (nodes : List Node) : Option Nat :=
  ((nodes.zipIdx.filter fun n => admits n.1.endpoint).maxOn? fun n => n.1.balance).map (·.2)

/-- One round: the position of the chosen node and the nodes after it. -/
def turn (admits : Nat → Bool) (nodes : List Node) : Option (Nat × List Node) :=
  let credited := credit admits nodes
  (leader? admits credited).map fun i =>
    (i, credited.modify i fun n => { n with balance := n.balance - total admits nodes })

def settle (failed : Bool) (n : Node) : Node :=
  if failed then { n with effective := if n.effective == 0 then 0 else n.effective - 1 }
  else { n with effective := if n.effective < n.weight then n.effective + 1 else n.effective }

end Rotation
end RemoteCall.Selection
