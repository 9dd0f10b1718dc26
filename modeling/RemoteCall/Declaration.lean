import RemoteCall.Data.KeyMap
import RemoteCall.Declaration.Binding
import RemoteCall.Declaration.TypeExpr
import RemoteCall.Declaration.WireName
import RemoteCall.Service

/-! Services declared as a list of typed methods, and what is generated from them: the table by
which a server finds a method, and a client with a method of the same form for each.

A declaration is accepted only if each method can be called from afar; the first fault decides. -/
namespace RemoteCall.Declaration

structure Argument where
  binding : Binding
  type : TypeExpr
deriving Inhabited

/-- A declared method. Its arguments do not count the receiver. -/
structure Method where
  name : String
  isAsync : Bool := true
  isGeneric : Bool := false
  hasBody : Bool := false
  receiver : Option Receiver
  arguments : List Argument
  result : Option TypeExpr
deriving Inhabited

inductive Item where
  | method (m : Method)
  /-- A constant, a type or anything else that nobody can call. -/
  | other
deriving Inhabited

structure Service where
  name : String
  /-- The name on the wire, where it is not the declared one. -/
  wireName : Option String := none
  isPublic : Bool := false
  isGeneric : Bool := false
  supertraits : List String := []
  items : List Item := []
deriving Inhabited

inductive Fault where
  | genericService
  | notAMethod
  | shape
  | binding
  | context
  | borrowedRequest
  | result
deriving DecidableEq, Repr

def Fault.message : Fault → String
  | genericService => "service traits can not be generic"
  | notAMethod => "service traits may only contain rpc methods"
  | shape => "rpc methods must look like `async fn m(&self, ctx: Context, req: Req) -> Result<Resp>` or return `Reply<Resp>`"
  | binding => "rpc method arguments must be plain `name: Type` bindings"
  | context => "the first argument must be a `Context`"
  | borrowedRequest => "the request is taken by value"
  | result => "rpc methods return `Result<Resp>` or `Reply<Resp>`"

/-- Whether a method yields a value or a failure, or may yield both. -/
inductive Outcome where
  | result
  | reply
deriving DecidableEq, Repr, Inhabited

structure Call where
  name : String
  wire : String
  context : String
  request : String
  requestType : TypeExpr
  responseType : TypeExpr
  outcome : Outcome
deriving Inhabited

def outcome? (t : TypeExpr) : Option (Outcome × TypeExpr) := do
  let response ← t.onlyArgument?
  match ← t.lastName? with
  | "Result" => pure (.result, response)
  | "Reply" => pure (.reply, response)
  | _ => none

/-- Checks a method: its shape, then its arguments, then its result. -/
def Method.check (m : Method) : Except Fault Call := do
  if !m.isAsync || m.isGeneric || m.hasBody || m.receiver != some .shared then throw .shape
  let [context, request] := m.arguments | throw .shape
  let (.plain contextName, .plain requestName) := (context.binding, request.binding)
    | throw .binding
  if context.type.lastName? != some "Context" then throw .context
  if request.type.isReference then throw .borrowedRequest
  let some result := m.result | throw .shape
  let some (outcome, responseType) := outcome? result | throw .result
  pure {
    name := m.name
    wire := wireName m.name
    context := contextName
    request := requestName
    requestType := request.type
    responseType
    outcome }

def Item.check : Item → Except Fault Call
  | method m => m.check
  | other => throw .notAMethod

structure Expansion where
  /-- The name of the service on the wire. -/
  serviceName : String
  clientName : String
  calls : List Call
deriving Inhabited

def bareName (name : String) : String :=
  match name.toList with
  | 'r' :: '#' :: rest => .ofList rest
  | _ => name

/-- Checks the service itself, then its items in order. -/
def Service.expand (s : Service) : Except Fault Expansion := do
  if s.isGeneric then throw .genericService
  pure {
    serviceName := s.wireName.getD s.name
    clientName := bareName s.name ++ "Client"
    calls := ← s.items.mapM Item.check }

/-- The table by which a server finds a method. Of two methods with one wire name the later one
stands. -/
def Expansion.table (e : Expansion) : KeyMap Call :=
  KeyMap.ofList (e.calls.map fun c => (c.wire, c))

/-- The service that answers with the handlers of the declared methods. They are added in the order
of the declaration, each under the name that its method has on the wire. -/
def Expansion.service {m : Type → Type} (e : Expansion) (handlers : String → RemoteCall.Method m) :
    RemoteCall.Service m :=
  e.calls.foldl (fun s c => s.add c.wire (handlers c.name)) { name := e.serviceName }

def tableMethod : String := "into_service"

def Expansion.methodNames (e : Expansion) : List String := e.calls.map (·.name) ++ [tableMethod]

end RemoteCall.Declaration
