import RemoteCall.Client
import RemoteCall.Server.Serving
import RemoteCall.Stub

/-! A stub whose calls leave through a client and are served by a server in the world around it. -/
namespace RemoteCall
variable {ω : Type}

def Work.around {α : Type} : Work ω α → Work (Client ω) α
  | done a => done a
  | act f next => act (fun s => { s with world := f s.world }) fun s => (next s.world).around
  | clock next => clock fun c => (next c).around
  | wait span next => wait span next.around
  | never => never
  | crash => crash

def Server.around (s : Server ω) (cancels : Cancels) (origin : PeerAddress) : Peer (Client ω) :=
  fun frame => (s.peer cancels origin frame).around

/-- A stub that calls through a client without interceptors. Its requests are numbered in the world.
-/
def Client.stub (c : Client ω) (network : Network (Client ω)) (cancels : Cancels)
    (takeId : Work ω UInt32) (service : String) : Stub (Work (Client ω)) where
  service
  invoker := c.invoker network cancels []
  nextId := takeId.around

end RemoteCall
