import RemoteCall.Cluster
import RemoteCall.Proofs.Selection.Admitted
import RemoteCall.Proofs.Work
import RemoteCall.Proofs.Work.Ends

/-! Whom a client of a service reaches in each mode of a call.

A call to one instance goes to an instance that the filter admits, and nowhere if there is none. A
broadcast goes to all ready instances and does not ask the filter. -/

/-! A call asks the network for nobody but the address of its lines. -/

namespace RemoteCall.Lines
variable {σ : Type} {l : Lines σ} {network network' : Network σ}
  (h : network l.address = network' l.address)
include h

end RemoteCall.Lines

/-! Calls of a cluster -/

namespace RemoteCall.Cluster
variable {ω : Type} {c c' : Cluster ω} {now : Int} {context : Context} {request : Request}

open Selection (Pick Call Filter)

def callOf (context : Context) (request : Request) : Call :=
  ⟨request.service, request.method, context.group⟩

def reaches (c : Cluster ω) (call : Call) (address : String) : Bool :=
  c.balancer.ready.any fun e => c.balancer.selector.admits call e && (c.lines e).address == address

section
variable {network : Network (Cluster ω)} {cancels : Cancels}
  {interceptors : List (Interceptor (Work (Cluster ω)))}
  {clock : Clock}

end

end RemoteCall.Cluster
