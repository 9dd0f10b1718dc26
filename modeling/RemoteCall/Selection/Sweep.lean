import RemoteCall.Selection.Picker

/-! A turn as it goes, node by node and in sums of 64 bits.

Whoever picks holds the nodes from the first to the last of them. Effective weights are not held:
calls end meanwhile and change them. -/
namespace RemoteCall.Selection.Rotation

/-- A sum, if 64 bits with a sign can hold it. -/
def signed64 (x : Int) : Option Int := if -0x8000000000000000 ≤ x ∧
  x < 0x8000000000000000 then some x else none

/-- How far a turn has come: the next node to look at, what was handed out, and the position and
balance of the first node with the highest balance so far. -/
structure Sweep where
  next : Nat := 0
  total : Int := 0
  leader : Option (Nat × Int) := none
deriving DecidableEq, Repr

structure Turning where
  nodes : List Node
  sweep : Option Sweep := none
deriving DecidableEq, Repr

inductive Step where
  /-- A pick takes hold of the nodes; while another one holds them it waits. -/
  | start
  /-- The pick looks at the next node, which may serve its call or not. -/
  | look (admitted : Bool)
  /-- The pick has looked at all nodes and settles on the leader. -/
  | choose
  /-- A call over a node has ended; one that was abandoned has failed. -/
  | settle (node : Nat) (failed : Bool)
deriving DecidableEq, Repr

def Step.givesNothing : Step → Bool
  | .look admitted => !admitted
  | .settle .. => true
  | _ => false

def Step.isSettle : Step → Bool
  | .settle .. => true
  | _ => false

namespace Sweep

/-- Who leads once the next node has a balance: that node if nobody before it has as much. -/
def lead (w : Sweep) (balance : Int) : Option (Nat × Int) :=
  match w.leader with
  | none => some (w.next, balance)
  | some (i, best) => if best < balance then some (w.next, balance) else some (i, best)

def look (w : Sweep) (admitted : Bool) (n : Node) : Option (Sweep × Node) :=
  if admitted then do
    let total ← signed64 (w.total + gain n)
    let balance ← signed64 (n.balance + gain n)
    pure ({ next := w.next + 1, total, leader := w.lead balance }, { n with balance })
  else pure ({ w with next := w.next + 1 }, n)

/-- The leader pays what was handed out. Without one nothing was, and the pick is refused. -/
def choose (w : Sweep) (nodes : List Node) : Option (List Node) :=
  match w.leader with
  | none => some nodes
  | some (i, _) =>
    match nodes[i]? with
    | none => some nodes
    | some n => do
      let balance ← signed64 (n.balance - w.total)
      pure (nodes.set i { n with balance })

end Sweep

namespace Turning

def ofPicker : Picker → Turning
  | .weightedRoundRobin nodes => { nodes }
  | _ => { nodes := [] }

/-- One step; none if a sum does not fit. What cannot happen yet changes nothing. -/
def step (s : Turning) : Step → Option Turning
  | .start => some (if s.sweep.isNone then { s with sweep := some {} } else s)
  | .look admitted =>
    match s.sweep with
    | none => some s
    | some w =>
      match s.nodes[w.next]? with
      | none => some s
      | some n => do
        let (w', n') ← w.look admitted n
        pure { nodes := s.nodes.set w.next n', sweep := some w' }
  | .choose =>
    match s.sweep with
    | none => some s
    | some w =>
      if w.next < s.nodes.length then some s
      else do
        let nodes ← w.choose s.nodes
        pure { nodes }
  | .settle i failed => some { s with nodes := s.nodes.modify i (settle failed) }

def run (s : Turning) (steps : List Step) : Option Turning := steps.foldlM step s

end Turning

def uninterrupted (admits : Nat → Bool) (nodes : List Node) : List Step :=
  .start :: nodes.map (fun n => .look (admits n.endpoint)) ++ [.choose]

end RemoteCall.Selection.Rotation
