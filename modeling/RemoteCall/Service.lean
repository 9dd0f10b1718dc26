import RemoteCall.Interceptor.Basic
import RemoteCall.Payload.Coded
import RemoteCall.Reply

/-! Services: named tables of methods, and the dispatch of requests to them.

A service or method that is not there is told to the caller like any other failure, in a response.
-/
namespace RemoteCall

abbrev Method (m : Type → Type) := Context → Request → m Response

/-- The response with what a handler handed back. A value that cannot be encoded is a failure,
unless the handler reports one itself. -/
def Response.withReply [Gzip.Encoder] {α : Type} [Encodable α] (r : Response) (reply : Reply α) :
    Response :=
  match reply.value.map r.codes.write, reply.error with
  | some (.ok data), none => r.withData data
  | some (.ok data), some e => (r.withData data).withError e.wireText
  | some (.error _), some e => r.withError e.wireText
  | some (.error e), none => r.withError e.wireText
  | none, some e => r.withError e.wireText
  | none, none => r

def Response.failed (request : Request) (e : Error) : Response :=
  (replyTo request).withError e.wireText

structure Service (m : Type → Type) where
  name : String
  methods : KeyMap (Method m) := .empty

namespace Service
variable {m : Type → Type} [Monad m] {α β : Type} [Decodable α] [Encodable β]

def methodNames (s : Service m) : List String := s.methods.keys

/-- Adds a method, in place of one of that name. -/
def add (s : Service m) (name : String) (method : Method m) : Service m :=
  { s with methods := s.methods.insert name method }

/-- The method that decodes its argument and encodes what the handler hands back, both as the
request says. Without an argument the handler does not run. -/
def replying [Gzip.Encoder] (handler : Context → α → m (Reply β)) : Method m :=
  fun context request =>
  match request.codes.read request.data with
  | .error e => pure (.failed request e)
  | .ok a => do pure ((Response.replyTo request).withReply (← handler context a))

def addReplying [Gzip.Encoder] (s : Service m) (name : String)
    (handler : Context → α → m (Reply β)) : Service m :=
  s.add name (replying handler)

def addHandler [Gzip.Encoder] (s : Service m) (name : String)
    (handler : Context → α → m (Result β)) : Service m :=
  s.addReplying name fun context a => Reply.ofResult <$> handler context a

end Service

structure Dispatcher (m : Type → Type) where
  services : KeyMap (Service m) := .empty

namespace Dispatcher
variable {m : Type → Type} [Monad m]

/-- Of several services of one name the last stays. -/
def ofList (services : List (Service m)) : Dispatcher m :=
  ⟨KeyMap.ofList (services.map fun s => (s.name, s))⟩

def serviceNames (d : Dispatcher m) : List String := d.services.keys

def serviceNotFound (service : String) : Error :=
  ⟨.serviceNotFound, "service not found: " ++ service⟩

def methodNotFound (service method : String) : Error :=
  ⟨.methodNotFound, "method not found: " ++ service ++ "." ++ method⟩

def method? (d : Dispatcher m) (request : Request) : Result (Method m) :=
  match d.services.get? request.service with
  | none => .error (serviceNotFound request.service)
  | some service =>
    match service.methods.get? request.method with
    | none => .error (methodNotFound request.service request.method)
    | some method => .ok method

def dispatch (d : Dispatcher m) : Method m := fun context request =>
  match d.method? request with
  | .error e => pure (.failed request e)
  | .ok method => method context request

def handler (d : Dispatcher m) : Handler m := fun context request =>
  .ok <$> d.dispatch context request

end Dispatcher
end RemoteCall
