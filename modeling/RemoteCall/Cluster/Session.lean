import RemoteCall.Cluster
import RemoteCall.Server.Announcing
import RemoteCall.Server.Serving
import RemoteCall.Users.Service

/-! A cluster of user tables: servers that start and stop, a registry that they announce themselves
in, and a client that follows it. -/
namespace RemoteCall.Cluster

/-- A server. One that is down is announced but cannot be reached. -/
structure Site where
  name : String
  address : String
  broken : Bool := false
  isUp : Bool := true
deriving Inhabited

inductive Directory where
  | listed (r : ListedRegistry)
  /-- Every server has an open session with the store. -/
  | stored (s : Store)

namespace Directory

/-- What is announced of a server. In a store it is the server's configuration, which has a weight.
-/
def announcement (d : Directory) (weight : Option UInt32) (group : Option String) (isUp : Bool) :
    Announcement :=
  match d with
  | stored _ => if isUp then ⟨some (weight.getD 1), group⟩ else ⟨weight, group⟩
  | listed _ => ⟨weight, group⟩

def announce (d : Directory) (a : Announcement) (address : String) : Directory :=
  match d with
  | listed r => listed (r.register (a.inst Users.serviceName address))
  | stored s =>
    let (s, lease) := s.grant LeasedRegistry.defaultSpan
    match lease with
    | .answer (.ok lease) =>
      stored (LeasedRegistry.register { lease } s (a.inst Users.serviceName address)).1
    | _ => stored s

def withdraw (d : Directory) (address : String) : Directory :=
  match d with
  | listed r => listed (r.unregister { name := Users.serviceName, address })
  | stored s => stored (LeasedRegistry.unregister s { name := Users.serviceName, address }).1

def list (d : Directory) (service : String) : Result (List Instance) :=
  match d with
  | listed r => .ok (r.list service)
  | stored s => LeasedRegistry.list s service

end Directory

structure World where
  directory : Directory := .listed {}
  /-- The latest of a name stands first. -/
  sites : List Site := []
  nextId : UInt32 := 1

abbrev Wide := Cluster World

namespace World

def site? (w : World) (name : String) : Option Site := w.sites.find? fun s => s.name == name

def nameAt (w : World) (address : String) : String :=
  ((w.sites.find? fun s => s.address == address).map (·.name)).getD address

def server [Gzip.Encoder] (s : Site) : Server Wide where
  config := { addr := s.address }
  services := [Users.service (fun d => Work.sleep d.nanos) ⟨s.name, s.broken⟩]

def refused (address : String) : Error := ⟨.network, "connection to " ++ address ++ " refused"⟩

/-- The network on which every server is reached that is up. -/
def network [Gzip.Encoder] (cancels : Cancels) : Network Wide := fun address => do
  let w := (← Work.get).world
  pure (match w.sites.find? fun s => s.isUp && s.address == address with
    | some s => .ok ((server s).peer cancels ⟨.v4 [127, 0, 0, 1], 0⟩)
    | none => .error (refused address))

end World

structure Session where
  clock : Clock
  cluster : Wide

namespace Session

def mapWorld (s : Session) (f : World → World) : Session :=
  { s with cluster.world := f s.cluster.world }

def mapSites (s : Session) (f : List Site → List Site) : Session :=
  s.mapWorld fun w => { w with sites := f w.sites }

def mapDirectory (s : Session) (f : Directory → Directory) : Session :=
  s.mapWorld fun w => { w with directory := f w.directory }

/-- The resolver goes on for a reason, to the end of the listing that this may begin. -/
def wake (s : Session) (reason : Resolver.Wake) : Session :=
  let c := s.cluster
  let (resolver, report) := c.resolver.wake (if c.resolver.cancelled then .cancelled else reason)
  let c := { c with
    resolver
    balancer := match report with
      | some e => c.balancer.report e
      | none => c.balancer }
  { s with cluster :=
      if resolver.phase == .listing then c.listed (c.world.directory.list c.service) else c }

/-- A change of the registry; a resolver that still waits learns of it. -/
def change (s : Session) (f : Directory → Directory) : Session :=
  let s := s.mapDirectory f
  if s.cluster.resolver.phase == .waiting then s.wake .event else s

def addSite (s : Session) (name : String) (broken isUp : Bool) : Session × String :=
  let address := "127.0.0.1:" ++ toString (10000 + s.cluster.world.sites.length)
  (s.mapSites fun sites => { name, address, broken, isUp } :: sites, address)

def start (s : Session) (name : String) (broken isUp : Bool) (weight : Option UInt32)
    (group : Option String) : Session :=
  let (s, address) := s.addSite name broken isUp
  s.change fun d => d.announce (d.announcement weight group isUp) address

def shut (s : Session) (name : String) : Session :=
  s.mapSites fun sites => sites.map fun x => if x.name == name then { x with isUp := false } else x

/-- A server ends; its announcement stays. -/
def crash (s : Session) (name : String) : Session := s.shut name

def stop (s : Session) (name : String) : Session :=
  match s.cluster.world.site? name with
  | some x => (s.change fun d => d.withdraw x.address).shut name
  | none => s

def reannounce (s : Session) (name : String) (weight : Option UInt32) (group : Option String) :
    Session :=
  match s.cluster.world.site? name with
  | some x => s.change fun d => d.announce (d.announcement weight group x.isUp) x.address
  | none => s

def refresh (s : Session) : Session :=
  let s := { s with cluster.resolver := s.cluster.resolver.requestRefresh }
  if s.cluster.resolver.phase == .waiting then s.wake .refresh else s

def close (s : Session) : Session :=
  let s := { s with cluster := s.cluster.close }
  if s.cluster.resolver.phase == .waiting then s.wake .cancelled else s

def ofConfig (config : ClientConfig) (filter : Option Selection.Filter) (d : Directory) : Session :=
  { clock := ⟨0, 0⟩, cluster := .ofConfig Users.serviceName config filter { directory := d } }

/-- The first listing, after which the client follows the registry. -/
def follow (s : Session) : Session :=
  let c := s.cluster
  { s with cluster := c.listed (c.world.directory.list c.service) }

def takeId : Work Wide UInt32 :=
  Work.modifyGet fun c => (c.world.nextId, { c with world.nextId := c.world.nextId + 1 })

def invoker (s : Session) (network : Network Wide) (cancels : Cancels)
    (interceptors : List (Interceptor (Work Wide))) : Invoker (Work Wide) :=
  Cluster.invoker network cancels interceptors s.cluster.config

def users (s : Session) (network : Network Wide) (cancels : Cancels)
    (interceptors : List (Interceptor (Work Wide))) (mode : CallMode) : Stub (Work Wide) where
  service := Users.serviceName
  invoker := s.invoker network cancels interceptors
  nextId := takeId
  mode

def run {α : Type} (s : Session) (w : Work Wide α) : Session × Option α :=
  let (outcome, clock, cluster) := w.run s.clock s.cluster
  ({ clock, cluster }, outcome)

/-- What is to be seen of a ready endpoint: the server's name, its instance, how many connections of
its pool are open and idle and how many callers wait, and how many calls are active. -/
structure Shown where
  name : String
  inst : Instance
  pool : Nat × Nat × Nat
  active : Nat

def ready (s : Session) : List Shown :=
  let b := s.cluster.balancer
  b.ready.map fun e =>
    let x := b.selector.endpoint e
    let p := b.pools[x.pool]?.getD default
    ⟨s.cluster.world.nameAt x.inst.address, x.inst, (p.admitted, p.idle.length, p.waiting),
      x.active.toNat⟩

end Session
end RemoteCall.Cluster
