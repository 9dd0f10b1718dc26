import RemoteCall.Balancer.Action
import RemoteCall.Cluster
import RemoteCall.Resolver.Following

/-! The upkeep of a client: its resolver follows the registry and hands what it learns on to the
balancer, while calls go through the pools.

Closing the client begins with asking the resolver to end. Then the pools of the set that is ready
are closed one after the other. Whatever else goes on may come before, between and after these
actions. -/
namespace RemoteCall

abbrev Upkeep := Following Balancer

namespace Upkeep

inductive Action where
  /-- The registry, its forwarder or the resolver does something, or the resolver is asked to. -/
  | resolver (a : Following.Action)
  | pick (call : Selection.Call) (now : Int) (draw : Nat)
  | finish (pick : Selection.Pick) (failed : Bool) (now : Int)
  /-- Something happens to the pool with this number. -/
  | pool (k : Nat) (x : Pool.Step)

def new (registry : ListedRegistry) (service : String) (timeout : Duration) (mode : SelectMode)
    (filter : Option Selection.Filter) (config : PoolConfig) : Upkeep :=
  Following.new registry service timeout (.ofMode mode filter config)

/-- Only who has the client can use its balancer. -/
def onBalancer (s : Upkeep) (f : Balancer → Balancer) : Upkeep :=
  if s.built then { s with sink := f s.sink } else s

def step (s : Upkeep) : Action → Upkeep
  | .resolver a => Following.step Balancer.sink s a
  | .pick call now draw => s.onBalancer fun b => b.step (.pick call now draw)
  | .finish pick failed now => s.onBalancer fun b => b.step (.finish pick failed now)
  | .pool k x => s.onBalancer fun b => b.step (.pool k x)

def run (s : Upkeep) (actions : List Action) : Upkeep := actions.foldl step s

def closings (s : Upkeep) : List Action := s.sink.ready.map fun e => .pool (s.sink.poolOf e) .close

end Upkeep
end RemoteCall
