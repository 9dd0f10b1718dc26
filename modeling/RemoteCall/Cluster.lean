import RemoteCall.Balancer
import RemoteCall.Connection.Call
import RemoteCall.Invoker
import RemoteCall.Resolver
import RemoteCall.Work.Concurrent

/-! A client of all instances of a service, which a resolver keeps current. -/
namespace RemoteCall

/-- Updates go to the balancer; a list that it cannot take over leaves it as it was. -/
def Balancer.sink : Sink Balancer where
  update b instances :=
    match b.update instances with
    | .ok b => (b, .ok ())
    | .error e => (b, .error e)
  report := Balancer.report

structure Cluster (ω : Type) where
  service : String
  config : ClientConfig
  balancer : Balancer
  resolver : Resolver
  /-- The connections and calls of each pool. -/
  wires : Table Wires := {}
  world : ω

namespace Cluster
variable {ω : Type}

open Selection (Pick)

def ofConfig (service : String) (config : ClientConfig) (filter : Option Selection.Filter)
    (world : ω) : Cluster ω where
  service
  config
  balancer := .ofMode config.select filter config.pool
  resolver := { service, timeout := config.resolveTimeout }
  world

def listed (c : Cluster ω) (outcome : Result (List Instance)) : Cluster ω :=
  { c with balancer := Balancer.sink.take c.balancer outcome, resolver := c.resolver.listed }

/-- Ends the resolver, then every connection. -/
def close (c : Cluster ω) : Cluster ω :=
  { c with resolver := c.resolver.close, balancer := c.balancer.close }

def traffic (c : Cluster ω) (n : Nat) : Traffic :=
  { (c.wires.get? n).getD {} with pool := c.balancer.pools[n]?.getD default }

def setTraffic (c : Cluster ω) (n : Nat) (t : Traffic) : Cluster ω :=
  if n < c.balancer.pools.length then
    { c with balancer.pools := c.balancer.pools.set n t.pool, wires := c.wires.set n t.toWires }
  else c

def lines (c : Cluster ω) (e : Nat) : Lines (Cluster ω) :=
  let endpoint := c.balancer.selector.endpoint e
  { address := endpoint.inst.address
    connectTimeout := c.config.connectTimeout
    traffic := fun c => c.traffic endpoint.pool
    setTraffic := fun t c => c.setTraffic endpoint.pool t }

/-- A call that ended without a response, or with an error in it, has failed. -/
def hasFailed : Result Response → Bool
  | .ok r => r.hasError
  | .error _ => true

def pick (c : Cluster ω) (now : Int) (context : Context) (request : Request) :
    Result (Cluster ω × Pick) := do
  let picks := { c.balancer.picks with now }
  let (picks, p) ← picks.pick ⟨request.service, request.method, context.group⟩
  pure ({ c with balancer.picks := picks }, p)

def finish (c : Cluster ω) (now : Int) (p : Pick) (failed : Bool) : Cluster ω :=
  { c with balancer.picks := { c.balancer.picks with now }.finish p failed }

section
variable (network : Network (Cluster ω)) (cancels : Cancels)

/-- A call to one picked endpoint. The callback of the pick runs also if the call breaks down. -/
def toOne : Handler (Work (Cluster ω)) := fun context request => .clock fun now => do
  match (← Work.get).pick now.mono context request with
  | .error e => pure (.error e)
  | .ok (c, p) => do
    Work.modify fun _ => c
    let outcome ← ((c.lines p.endpoint).call network cancels context request).caught
    .clock fun now => Work.modify fun c => c.finish now.mono p (outcome.elim true hasFailed)
    outcome.elim .crash pure

variable (interceptors : List (Interceptor (Work (Cluster ω))))

def unary : Handler (Work (Cluster ω)) := chain interceptors (toOne network cancels)

def noneReady (service : String) : Error :=
  ⟨.noConnectionAvailable, "no instance of " ++ service ++ " is ready"⟩

def branches (c : Cluster ω) (context : Context) (request : Request) :
    List (String × Work (Cluster ω) (Result Response)) :=
  c.balancer.ready.map fun e =>
    let l := c.lines e
    (l.address, chain interceptors (l.call network cancels) context request)

/-- Calls every ready instance at once; the replies stand in the order in which they came. A call
that breaks down has none. -/
def broadcast (context : Context) (request : Request) :
    Work (Cluster ω) (Result (List InstanceReply)) := do
  let c ← Work.get
  match c.branches network cancels interceptors context request with
  | [] => pure (.error (noneReady c.service))
  | branches => do
    let outcomes ← Work.all (branches.map fun (address, call) =>
      Option.map (InstanceReply.mk address) <$> call.caught)
    pure (.ok ((outcomes.mergeSort fun a b => a.1 ≤ b.1).filterMap (·.2)))

def noReplies : Error := ⟨.noConnectionAvailable, "broadcast finished without replies"⟩

/-- Calls every ready instance at once; the first response without an error counts, and the other
calls are given up. -/
def broadcastFastest (context : Context) (request : Request) :
    Work (Cluster ω) (Result Response) := do
  let c ← Work.get
  match (c.branches network cancels interceptors context request).map (·.2.caught) with
  | [] => pure (.error (noneReady c.service))
  | first :: rest => context.bound cancels do
    pure ((← Work.race (fun r => !hasFailed r) first rest).getD (.error noReplies))

def invoker (config : ClientConfig) : Invoker (Work (Cluster ω)) where
  dispatch context request
    | .unary => Except.map .single <$> unary network cancels interceptors context request
    | .broadcastFastest =>
      Except.map .single <$> broadcastFastest network cancels interceptors context request
    | .broadcastAll => Except.map .stream <$> broadcast network cancels interceptors context request
  serializer := config.serializer
  compressor := config.compressor

end
end Cluster
end RemoteCall
