import RemoteCall.Invoker
import RemoteCall.Payload.Coded

/-! Stubs: the typed face of a remote service. -/
namespace RemoteCall

/-- The value that a response carries. If there is an error text it is all that counts. -/
def Response.toResult {β : Type} [Decodable β] (r : Response) : Result β :=
  match r.errorText with
  | some text => .error ⟨.server, text⟩
  | none => r.codes.read r.data

structure Stub (m : Type → Type) where
  service : String
  invoker : Invoker m
  /-- Numbers the requests. -/
  nextId : m UInt32
  mode : CallMode := .unary

namespace Stub
variable {m : Type → Type} [Monad m] {α β : Type} [Encodable α] [Decodable β]

def streamError : Error := ⟨.client, "broadcast-all calls return a stream, use broadcast_all"⟩

def unexpectedStream : Error := ⟨.client, "invoker answered a single call with a stream"⟩

def onewayError : Error := ⟨.oneway, "one-way call has no response"⟩

def argument [Gzip.Encoder] (s : Stub m) (a : α) : Result ByteArray := do
  s.invoker.compressor.compress (← s.invoker.serializer.encode a)

/-- A request takes a number only when its argument could be encoded. -/
def request [Gzip.Encoder] (s : Stub m) (method : String) (a : α) : m (Result Request) :=
  match s.argument a with
  | .error e => pure (.error e)
  | .ok data => do
    let id ← s.nextId
    pure (.ok ((((Request.new s.service method).withMessageId id).withCodes s.invoker.serializer
      s.invoker.compressor).withData data))

def callWith [Gzip.Encoder] (s : Stub m) (mode : CallMode) (context : Context) (method : String)
    (a : α) : m (Result β) := do
  if mode == .broadcastAll then return .error streamError
  match ← s.request method a with
  | .error e => pure (.error e)
  | .ok request =>
    match ← s.invoker.dispatch context request mode with
    | .error e => pure (.error e)
    | .ok (.stream _) => pure (.error unexpectedStream)
    | .ok (.single r) => pure (if context.oneway then .error onewayError else r.toResult)

def call [Gzip.Encoder] (s : Stub m) (context : Context) (method : String) (a : α) : m (Result β) :=
  s.callWith s.mode context method a

def broadcastAll [Gzip.Encoder] (s : Stub m) (context : Context) (method : String) (a : α) :
    m (Result (List (String × Result β))) := do
  match ← s.request method a with
  | .error e => pure (.error e)
  | .ok request =>
    match ← s.invoker.dispatch context request .broadcastAll with
    | .error e => pure (.error e)
    | .ok (.single r) => pure (.ok [("", r.toResult)])
    | .ok (.stream replies) =>
      pure (.ok (replies.map fun reply => (reply.address, reply.outcome.bind Response.toResult)))

end Stub
end RemoteCall
