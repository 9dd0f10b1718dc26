import RemoteCall.Pool.Basic
import RemoteCall.Selection.Session

/-! The ready set of one service, with a pool for each address.

An address that stays keeps its pool. An instance that stays keeps its endpoint too; one whose
weight or group changed starts anew. -/
namespace RemoteCall

structure Balancer where
  config : PoolConfig
  picks : Selection.Session
  pools : List Pool.State := []
  /-- The latest failure to learn the instances, until they are learnt again. -/
  lastError : Option Error := none
deriving Inhabited

namespace Balancer

open Selection (Selector Endpoint)

def ofMode (mode : SelectMode) (filter : Option Selection.Filter) (config : PoolConfig) :
    Balancer :=
  { config, picks := { selector := .ofMode mode filter } }

def selector (b : Balancer) : Selector := b.picks.selector

def ready (b : Balancer) : List Nat := b.selector.ready

def withSelector (b : Balancer) (s : Selector) : Balancer := { b with picks.selector := s }

def firstAtEach (instances : List Instance) : List Instance :=
  instances.eraseDupsBy fun a b => a.address == b.address

def at? (b : Balancer) (address : String) : Option Nat :=
  b.ready.find? fun e => (b.selector.endpoint e).inst.address == address

def addEndpoint (b : Balancer) (e : Endpoint) : Balancer × Nat :=
  (b.withSelector { b.selector with endpoints := b.selector.endpoints ++ [e] },
   b.selector.endpoints.length)

/-- The endpoint of an instance: the one it has, one over the pool of its address, or one over a new
pool. -/
def claim (b : Balancer) (inst : Instance) : Result (Balancer × Nat) :=
  match b.at? inst.address with
  | some e =>
    let old := b.selector.endpoint e
    .ok (if old.inst == inst then (b, e) else b.addEndpoint { inst, pool := old.pool })
  | none => do
    let pool ← Pool.State.ofConfig b.config
    pure ({ b with pools := b.pools ++ [pool] }.addEndpoint { inst, pool := b.pools.length })

def claimAll (b : Balancer) : List Instance → Result (Balancer × List Nat)
  | [] => .ok (b, [])
  | inst :: rest => do
    let (b, e) ← b.claim inst
    let (b, es) ← b.claimAll rest
    pure (b, e :: es)

def closePool (b : Balancer) (e : Nat) : Balancer :=
  { b with pools := b.pools.modify (b.selector.endpoint e).pool Pool.State.close }

/-- Takes over a list of instances, with a fresh picker over them; closes the pools of the addresses
that are gone. An instance that has no pool and gets none leaves everything as it was. -/
def update (b : Balancer) (instances : List Instance) : Result Balancer := do
  let instances := firstAtEach instances
  let gone := b.ready.filter fun e =>
    !instances.any fun i => i.address == (b.selector.endpoint e).inst.address
  let (after, ready) ← b.claimAll instances
  let after := gone.foldl closePool after
  pure { after.withSelector (after.selector.rebuild ready) with lastError := none }

def report (b : Balancer) (e : Error) : Balancer := { b with lastError := some e }

/-- Closes the pools of the ready set, which stays as it is. -/
def close (b : Balancer) : Balancer := b.ready.foldl closePool b

def isClosed (b : Balancer) (e : Nat) : Bool :=
  b.pools[(b.selector.endpoint e).pool]?.any (·.closed)

def closedEndpoints (b : Balancer) : List Nat :=
  (List.range b.selector.endpoints.length).filter b.isClosed

end Balancer
end RemoteCall
