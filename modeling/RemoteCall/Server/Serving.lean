import RemoteCall.Connection.Call

/-! Serving a connection: its frames are handled one at a time, in order, and every request that
waits for a response gets one. A frame that is no request ends the connection. -/
namespace RemoteCall

namespace Handler
variable {σ : Type}

/-- Handles a request within its own deadline; a failure of the handler itself is told in a
response. -/
def respond (handler : Handler (Work σ)) (cancels : Cancels) (request : Request) :
    Work σ Response :=
  .clock fun now => do
    let context := Context.ofRequest request now 0
    match ← context.bound cancels (handler context request) with
    | .ok response => pure response
    | .error e => pure (.failed request e)

end Handler

/-- The bytes of a response. One that cannot be encoded is replaced by the failure to. -/
def Response.bytes? (r : Response) (request : Request) : Option ByteArray :=
  match r.encode with
  | .ok bytes => some bytes
  | .error e => (Response.failed request e).encode.toOption

/-- What comes of a request: its response is written, unless nobody waits for it. -/
def Handled.reply (request : Request) (response : Response) : Handled :=
  if request.isOneway then {}
  else match response.bytes? request with
    | some written => { written }
    | none => { ends := true }

namespace Handler
variable {σ : Type}

def serveFrame (handler : Handler (Work σ)) (cancels : Cancels) (frame : ByteArray) :
    Work σ Handled :=
  match Request.decode frame with
  | .error _ => pure { ends := true }
  | .ok request => do pure (.reply request (← handler.respond cancels request))

/-- Handles frames up to the first that ends the connection; yields all that is written. -/
def serveFrames (handler : Handler (Work σ)) (cancels : Cancels) : List ByteArray → Work σ ByteArray
  | [] => pure .empty
  | frame :: rest => do
    let h ← handler.serveFrame cancels frame
    if h.ends then pure h.written
    else do
      let others ← handler.serveFrames cancels rest
      pure (h.written ++ others)

def serve (handler : Handler (Work σ)) (cancels : Cancels) (stream : ByteArray) :
    Work σ ByteArray :=
  handler.serveFrames cancels (Stream.readAll stream).1

end Handler

/-- The peer that a server is to those who connect from an address. A peer that is turned away finds
the connection ended. -/
def Server.peer {σ : Type} (s : Server σ) (cancels : Cancels) (origin : PeerAddress) :
    Peer σ := fun frame =>
  match s.welcome origin with
  | .ok () => s.handler.serveFrame cancels frame
  | .error _ => pure { ends := true }

end RemoteCall
