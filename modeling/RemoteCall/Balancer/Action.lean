import RemoteCall.Balancer

/-! Everything that happens to a balancer, as actions of which none is interrupted by another.

Between two updates calls are sent to its endpoints and end, and what they do to the pools happens
in any order. -/
namespace RemoteCall.Balancer

def inst (b : Balancer) (e : Nat) : Instance := (b.selector.endpoint e).inst

def poolOf (b : Balancer) (e : Nat) : Nat := (b.selector.endpoint e).pool

inductive Action where
  | update (instances : List Instance)
  | report (e : Error)
  | pick (call : Selection.Call) (now : Int) (draw : Nat)
  | finish (pick : Selection.Pick) (failed : Bool) (now : Int)
  /-- Something happens to the pool with this number. -/
  | pool (k : Nat) (x : Pool.Step)

/-- Callers use pools and leave closing them to the balancer. -/
def Action.LeavesOpen : Action → Prop
  | .pool _ .close => False
  | _ => True

/-- An update that fails, or a pick that finds nothing, changes nothing. -/
def step (b : Balancer) : Action → Balancer
  | .update instances => (b.update instances).toOption.getD b
  | .report e => b.report e
  | .pick call now draw =>
    match b.selector.pick call now draw with
    | .ok (selector, _) => b.withSelector selector
    | .error _ => b
  | .finish pick failed now => b.withSelector (b.selector.finish pick failed now)
  | .pool k x => { b with pools := b.pools.modify k fun s => s.step x }

def run (b : Balancer) (actions : List Action) : Balancer := actions.foldl step b

end RemoteCall.Balancer
