import RemoteCall.Connection.Call
import RemoteCall.Invoker

/-! A client of one address. -/
namespace RemoteCall

structure Client (ω : Type) where
  address : String
  config : ClientConfig
  traffic : Traffic
  world : ω

namespace Client
variable {ω : Type}

def ofConfig (address : String) (config : ClientConfig) (world : ω) : Result (Client ω) := do
  pure { address, config, traffic := ← Traffic.ofConfig config.pool, world }

def pool (c : Client ω) : Pool.State := c.traffic.pool

def links (c : Client ω) : Table Link := c.traffic.links

def lines (c : Client ω) : Lines (Client ω) where
  address := c.address
  connectTimeout := c.config.connectTimeout
  traffic := Client.traffic
  setTraffic traffic c := { c with traffic }

def handler (c : Client ω) (network : Network (Client ω)) (cancels : Cancels)
    (interceptors : List (Interceptor (Work (Client ω)))) : Handler (Work (Client ω)) :=
  chain interceptors (c.lines.call network cancels)

/-- A broadcast reaches the one address there is. -/
def invoker (c : Client ω) (network : Network (Client ω)) (cancels : Cancels)
    (interceptors : List (Interceptor (Work (Client ω)))) : Invoker (Work (Client ω)) where
  dispatch context request mode := do
    let outcome ← c.handler network cancels interceptors context request
    match mode with
    | .broadcastAll => pure (.ok (.stream [⟨c.address, outcome⟩]))
    | .unary | .broadcastFastest => pure (outcome.map .single)
  serializer := c.config.serializer
  compressor := c.config.compressor

def close (c : Client ω) : Client ω := { c with traffic := c.traffic.step .close }

end Client
end RemoteCall
