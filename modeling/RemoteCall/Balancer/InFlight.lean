import RemoteCall.Balancer

/-! Picks by least activity and the callbacks that they leave, in the order in which things take
effect.

A pick goes through the ready set that it has found and reads counters one by one, while calls end.
An update builds a new ready set from the one that it has found, however many were put in place
since. Picks are taken one at a time. -/
namespace RemoteCall
open Selection (Pick Endpoint)

structure Picking where
  /-- Whose ready set it has found. -/
  generation : Nat
  /-- The admitted endpoints of that set that are still to be looked at. -/
  left : List Nat
  /-- The best one of those that were looked at. -/
  best : Option Nat := none
  /-- The counter of the best one, once it is read to be compared with the next. -/
  least : Option UInt32 := none
deriving DecidableEq, Repr

/-- The callback of a pick, which is pending until it runs. -/
structure Done where
  pick : Pick
  isPending : Bool := true
deriving DecidableEq, Repr

structure InFlight where
  balancer : Balancer
  /-- The ready sets that updates have found. -/
  found : List (List Nat) := []
  picking : Option Picking := none
  /-- The callbacks of all picks, in the order of the picks. -/
  dones : List Done := []
  /-- Which callbacks have run, in that order. -/
  ran : List Nat := []
deriving Inhabited

/-- Takes over a list of instances in place of a ready set that was found before. -/
def Balancer.updateFrom (b : Balancer) (found : List Nat) (instances : List Instance) :
    Result Balancer :=
  (b.withSelector { b.selector with picker := .leastActive found }).update instances

namespace Picking

def look (p : Picking) (active : Nat → UInt32) : Picking :=
  match p.left, p.best, p.least with
  | e :: rest, none, _ => { p with left := rest, best := some e, least := none }
  | e :: rest, some b, some least =>
    { p with left := rest, best := some (if least ≤ active e then b else e), least := none }
  | _, _, _ => p

end Picking

namespace InFlight

inductive Action where
  /-- An update finds the ready set. -/
  | find
  /-- An update puts a ready set in place of the one that it has found. -/
  | update (found : Nat) (instances : List Instance)
  /-- A pick finds the ready set; while another pick is under way it waits. -/
  | start (call : Selection.Call)
  /-- The pick reads the counter of the best endpoint. -/
  | read
  /-- The pick looks at the next endpoint. -/
  | look
  /-- The pick has looked at all endpoints: it counts at the best one, or it is refused. -/
  | settle
  /-- The callback of a pick is called, and what is left of it is dropped. -/
  | call (k : Nat) (failed : Bool) (now : Int)
  /-- The callback of a pick is dropped. -/
  | drop (k : Nat) (now : Int)
deriving DecidableEq, Repr

def new (filter : Option Selection.Filter) (config : PoolConfig) : InFlight :=
  { balancer := .ofMode .leastActive filter config }

def active (s : InFlight) (e : Nat) : UInt32 := (s.balancer.selector.endpoint e).active

/-- How many picks of an endpoint have their callback pending. -/
def outstanding (s : InFlight) (e : Nat) : Nat := s.dones.countP fun d =>
  d.isPending && d.pick.endpoint == e

def candidates (s : InFlight) (call : Selection.Call) : List Nat :=
  s.balancer.ready.filter (s.balancer.selector.admits call)

def modify (s : InFlight) (e : Nat) (f : Endpoint → Endpoint) : InFlight :=
  { s with balancer := s.balancer.withSelector (s.balancer.selector.modify e f) }

def enter (s : InFlight) (e generation : Nat) : InFlight :=
  { s.modify e Endpoint.enter with
    picking := none
    dones := s.dones ++ [{ pick := ⟨⟨e, .active e⟩, generation⟩ }] }

def settle (s : InFlight) (p : Picking) : InFlight :=
  match p.left, p.best with
  | [], none => { s with picking := none }
  | [], some e => s.enter e p.generation
  | _ :: _, _ => s

def runDone (s : InFlight) (k : Nat) (failed : Bool) (now : Int) : InFlight :=
  match s.dones[k]? with
  | some ⟨pick, true⟩ =>
    { s with
      balancer := s.balancer.withSelector (s.balancer.selector.finish pick failed now)
      dones := s.dones.set k ⟨pick, false⟩
      ran := s.ran ++ [k] }
  | _ => s

/-- What cannot happen yet changes nothing. -/
def step (s : InFlight) : Action → InFlight
  | .find => { s with found := s.found ++ [s.balancer.ready] }
  | .update found instances =>
    match s.found[found]? with
    | some ready =>
      { s with balancer := (s.balancer.updateFrom ready instances).toOption.getD s.balancer }
    | none => s
  | .start call =>
    if s.picking.isNone then
      { s with
        picking := some
          { generation := s.balancer.selector.generation, left := s.candidates call } }
    else s
  | .read => { s with picking := s.picking.map fun p => { p with least := p.best.map s.active } }
  | .look => { s with picking := s.picking.map fun p => p.look s.active }
  | .settle => s.picking.elim s s.settle
  | .call k failed now => (s.runDone k failed now).runDone k true now
  | .drop k now => s.runDone k true now

def run (s : InFlight) (actions : List Action) : InFlight := actions.foldl step s

/-- A pick that nothing interrupts, with so many looks. -/
def atOnce (call : Selection.Call) (looks : Nat) : List Action :=
  .start call :: (List.replicate looks [Action.read, .look]).flatten ++ [.settle]

end InFlight
end RemoteCall
