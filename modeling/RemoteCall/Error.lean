import RemoteCall.Enumeration

/-! Failures of a call: a kind, which decides what the caller may do next, and a text for people.

Only the text of a failure travels in a response, so a failure without a text sends the name of its
kind. -/
namespace RemoteCall

/-- The failure classes of a call: transport, pool, protocol, routing and application failures are
kept apart, because they differ in whether another attempt can help. -/
inductive ErrorKind where
  | network
  | poolExhausted
  | protocol
  | encode
  | serialize
  | compress
  | noConnectionAvailable
  | serviceNotFound
  | methodNotFound
  | server
  | timeout
  | canceled
  | oneway
  | registry
  | config
  | client
  | other
deriving DecidableEq, Repr, Inhabited

namespace ErrorKind

def name : ErrorKind → String
  | network => "Network"
  | poolExhausted => "PoolExhausted"
  | protocol => "Protocol"
  | encode => "Encode"
  | serialize => "Serialize"
  | compress => "Compress"
  | noConnectionAvailable => "NoConnectionAvailable"
  | serviceNotFound => "ServiceNotFound"
  | methodNotFound => "MethodNotFound"
  | server => "Server"
  | timeout => "Timeout"
  | canceled => "Canceled"
  | oneway => "Oneway"
  | registry => "Registry"
  | config => "Config"
  | client => "Client"
  | other => "Other"

instance : Enumeration ErrorKind where
  values := [network, poolExhausted, protocol, encode, serialize, compress, noConnectionAvailable,
    serviceNotFound, methodNotFound, server, timeout, canceled, oneway, registry, config, client,
    other]
  name := name

/-- Transport and protocol failures leave a connection in an unknown state: it must not serve
another call. -/
def isConnectionFatal : ErrorKind → Bool
  | network | protocol | timeout | canceled => true
  | _ => false

end ErrorKind

structure Error where
  kind : ErrorKind
  text : String
deriving DecidableEq, Repr, Inhabited

abbrev Result := Except Error

namespace Error

def ofKind (kind : ErrorKind) : Error := ⟨kind, ""⟩

/-- The text shown to people: the kind, and the text after it if there is one. -/
def display (e : Error) : String :=
  if e.text.isEmpty then e.kind.name else e.kind.name ++ ": " ++ e.text

/-- The text a response carries: never empty. -/
def wireText (e : Error) : String :=
  if e.text.isEmpty then e.kind.name else e.text

def isConnectionFatal (e : Error) : Bool := e.kind.isConnectionFatal

end Error

inductive StreamFault where
  | timedOut
  | invalidData
  | unexpectedEnd
  | broken
deriving DecidableEq, Repr

/-- A stream that ends or holds wrong data breaks the protocol; all else but a timeout is a
transport failure. -/
def StreamFault.kind : StreamFault → ErrorKind
  | timedOut => .timeout
  | invalidData | unexpectedEnd => .protocol
  | broken => .network

def StreamFault.name : StreamFault → String
  | timedOut => "TimedOut"
  | invalidData => "InvalidData"
  | unexpectedEnd => "UnexpectedEof"
  | broken => "BrokenPipe"

instance : Enumeration StreamFault :=
  ⟨[.timedOut, .invalidData, .unexpectedEnd, .broken], StreamFault.name⟩

def StreamFault.toError (fault : StreamFault) (text : String) : Error := ⟨fault.kind, text⟩

end RemoteCall
