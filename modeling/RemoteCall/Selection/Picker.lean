import RemoteCall.Error
import RemoteCall.Selection.Endpoint
import RemoteCall.Selection.Rotation

/-! Pickers: how one endpoint of a ready set is chosen for a call.

A ready set is a list of numbers of endpoints. A choice may leave a notice, to be given back when
the call has ended. -/
namespace RemoteCall.Selection

/-! Choice by a drawn number -/

/-- The first item at which the running total of the weights reaches the draw. Over all draws from 1
to the total weight each item is chosen as often as it weighs. -/
def scan {α : Type} (weight : α → Nat) : List α → Nat → Option α
  | [], _ => none
  | a :: rest, draw => if draw ≤ weight a then some a else scan weight rest (draw - weight a)

structure Draws where
  seed : Nat := 1
deriving Repr, Inhabited

/-- The next draw: the high bits of a linear congruence, whose low bits repeat too soon. -/
def Draws.next (d : Draws) : Nat × Draws :=
  let seed := (d.seed * 6364136223846793005 + 1442695040888963407) % UInt64.size
  (seed >>> 24, ⟨seed⟩)

/-! Pickers -/

inductive Picker where
  | random (ready : List Nat)
  | weightedRandom (ready : List Nat)
  | leastActive (ready : List Nat)
  | fastest (ready : List Nat)
  | roundRobin (ready : List Nat) (cursor : Nat)
  | weightedRoundRobin (nodes : List Node)
deriving DecidableEq, Inhabited

inductive Notice where
  | none
  | active (endpoint : Nat)
  | latency (endpoint : Nat) (start : Int)
  | weight (node : Nat)
deriving DecidableEq, Repr, Inhabited

def Notice.isNone (n : Notice) : Bool := n == .none

structure Choice where
  endpoint : Nat
  notice : Notice
deriving DecidableEq, Repr, Inhabited

def noConnection : Error := ⟨.noConnectionAvailable, "no connection available"⟩

def noWeight : Error := ⟨.config, "total weight of the ready instances is zero"⟩

namespace Picker

def ofReady (mode : SelectMode) (weight : Nat → UInt32) (ready : List Nat) : Picker :=
  match mode with
  | .random => .random ready
  | .weightedRandom => .weightedRandom ready
  | .leastActive => .leastActive ready
  | .fastest => .fastest ready
  | .roundRobin => .roundRobin ready 0
  | .weightedRoundRobin => .weightedRoundRobin <|
      ready.map fun e => { endpoint := e, weight := weight e, effective := weight e }

def ready : Picker → List Nat
  | random r | weightedRandom r | leastActive r | fastest r | roundRobin r _ => r
  | weightedRoundRobin nodes => nodes.map (·.endpoint)

structure View where
  endpoint : Nat → Endpoint
  admits : Nat → Bool
  now : Int
  draw : Nat

namespace View

def weight (v : View) (e : Nat) : Nat := (v.endpoint e).inst.effectiveWeight.toNat

def totalWeight (v : View) (candidates : List Nat) : Nat :=
  candidates.foldr (fun c sum => v.weight c + sum) 0

end View

/-- Chooses among the admitted endpoints; of equally good ones the first. -/
def pick (v : View) : Picker → Result (Picker × Choice)
  | random ready =>
    let candidates := ready.filter v.admits
    match candidates[v.draw % candidates.length]? with
    | some e => .ok (random ready, ⟨e, .none⟩)
    | none => .error noConnection
  | weightedRandom ready =>
    let candidates := ready.filter v.admits
    if candidates.isEmpty then .error noConnection
    else if v.totalWeight candidates == 0 then .error noWeight
    else match scan v.weight candidates (v.draw % v.totalWeight candidates + 1) with
      | some e => .ok (weightedRandom ready, ⟨e, .none⟩)
      | none => .error noConnection
  | leastActive ready =>
    match (ready.filter v.admits).minOn? fun e => (v.endpoint e).active with
    | some e => .ok (leastActive ready, ⟨e, .active e⟩)
    | none => .error noConnection
  | fastest ready =>
    match (ready.filter v.admits).minOn? fun e => (v.endpoint e).latency with
    | some e => .ok (fastest ready, ⟨e, .latency e v.now⟩)
    | none => .error noConnection
  | roundRobin ready cursor =>
    let candidates := ready.filter v.admits
    let index := cursor % candidates.length
    match candidates[index]? with
    | some e => .ok (roundRobin ready (index + 1), ⟨e, .none⟩)
    | none => .error noConnection
  | weightedRoundRobin nodes =>
    match Rotation.turn v.admits nodes with
    | some (i, after) => .ok
        (weightedRoundRobin after, ⟨(nodes[i]?.map (·.endpoint)).getD 0, .weight i⟩)
    | none => .error noConnection

def support (v : View) : Picker → List Nat
  | weightedRandom ready => (ready.filter v.admits).filter fun e => v.weight e != 0
  | p => p.ready.filter v.admits

end Picker
end RemoteCall.Selection
