import RemoteCall.Registry.Leased
import RemoteCall.Registry.Listed
import RemoteCall.Server
import RemoteCall.Work.Part

/-! Announcers that keep the services of a server in a registry, and the gate that lets in known
peers alone. -/
namespace RemoteCall

def Announcer.onPart {σ τ : Type} (part : Part σ τ) (a : Announcer τ) : Announcer σ where
  register service address := (a.register service address).onPart part
  unregister service address := (a.unregister service address).onPart part
  intact_register service address := (a.intact_register service address).onPart part
  intact_unregister service address := (a.intact_unregister service address).onPart part

structure Announcement where
  weight : Option UInt32 := none
  group : Option String := none
deriving DecidableEq, Repr, Inhabited

namespace Announcement

def ofConfig (c : ServerConfig) : Announcement := ⟨some c.weight, c.group⟩

def inst (a : Announcement) (service address : String) : Instance :=
  { name := service, address, weight := a.weight, group := a.group }

def listed (a : Announcement) : Announcer ListedRegistry where
  register service address := do
    Work.modify fun r => r.register (a.inst service address)
    pure (.ok ())
  unregister service address := do
    Work.modify fun r => r.unregister (a.inst service address)
    pure (.ok ())
  intact_register _ _ _ := trivial
  intact_unregister _ _ _ := trivial

def leased (a : Announcement) (r : LeasedRegistry) : Announcer Store where
  register service address := Work.modifyGet fun s => (r.register s (a.inst service address)).swap
  unregister service address :=
    Work.modifyGet fun s => (LeasedRegistry.unregister s (a.inst service address)).swap
  intact_register _ _ _ := trivial
  intact_unregister _ _ _ := trivial

end Announcement

/-- Lets in the peers whose addresses are listed. -/
def allowing (allowed : List IpAddress) : Gate := fun peer =>
  if allowed.contains peer.ip then .ok ()
  else .error ⟨.network, "peer " ++ peer.text ++ " is not allowed"⟩

end RemoteCall
