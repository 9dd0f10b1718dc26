import RemoteCall.Balancer.InFlight
import RemoteCall.Cluster

/-! Calls to one instance that are given up when their callers have waited long enough.

A call that is given up stops where it waits, and the callback of its pick is dropped with it. -/
namespace RemoteCall

/-- The work, for as long as someone waits for it. Nothing comes of it either where it breaks down.
-/
def Work.within {σ α : Type} (patience : Option Nat) (w : Work σ α) : Work σ (Option α) :=
  match patience with
  | none => w.caught
  | some n => Option.join <$> w.caught.limit false n

namespace Cluster
variable {ω : Type}

/-- A call to one picked endpoint, for as long as its caller waits for it. -/
def toOneWithin (network : Network (Cluster ω)) (cancels : Cancels) (patience : Option Nat)
    (context : Context) (request : Request) :
    Work (Cluster ω) (Option (Result Response)) := .clock fun now => do
  match (← Work.get).pick now.mono context request with
  | .error e => pure (some (.error e))
  | .ok (c, p) => do
    Work.modify fun _ => c
    let outcome ← ((c.lines p.endpoint).call network cancels context request).within patience
    .clock fun now => Work.modify fun c => c.finish now.mono p (outcome.elim true hasFailed)
    pure outcome

def ending (k : Nat) (outcome : Option (Result Response)) (now : Int) : InFlight.Action :=
  match outcome with
  | some outcome => .call k (hasFailed outcome) now
  | none => .drop k now

end Cluster
end RemoteCall
