import RemoteCall.Error

/-! The codes of the fixed head, and the choices a client is configured with. -/
namespace RemoteCall

inductive SerializeType where
  | none
  | json
  | protoBuffer
  | msgPack
deriving DecidableEq, Repr, Inhabited

namespace SerializeType

def name : SerializeType → String
  | none => "SerializeNone"
  | json => "JSON"
  | protoBuffer => "ProtoBuffer"
  | msgPack => "MsgPack"

instance : Enumeration SerializeType := ⟨[none, json, protoBuffer, msgPack], name⟩

def code : SerializeType → UInt8
  | none => 0
  | json => 1
  | protoBuffer => 2
  | msgPack => 3

def ofCode? (c : UInt8) : Option SerializeType :=
  [none, json, protoBuffer, msgPack].find? fun t => t.code == c

def ofCode (c : UInt8) : Result SerializeType :=
  match ofCode? c with
  | some t => .ok t
  | Option.none => .error ⟨.serialize, s!"unknown serializer code {c.toNat}"⟩

end SerializeType

inductive CompressType where
  | none
  | gzip
deriving DecidableEq, Repr, Inhabited

namespace CompressType

def name : CompressType → String
  | none => "CompressNone"
  | gzip => "Gzip"

instance : Enumeration CompressType := ⟨[none, gzip], name⟩

def code : CompressType → UInt8
  | none => 0
  | gzip => 1

def ofCode? (c : UInt8) : Option CompressType :=
  [none, gzip].find? fun t => t.code == c

def ofCode (c : UInt8) : Result CompressType :=
  match ofCode? c with
  | some t => .ok t
  | Option.none => .error ⟨.compress, s!"unknown compressor code {c.toNat}"⟩

end CompressType

inductive SelectMode where
  | random
  | roundRobin
  | weightedRoundRobin
  | weightedRandom
  | leastActive
  | fastest
deriving DecidableEq, Repr, Inhabited

namespace SelectMode

def name : SelectMode → String
  | random => "RandomSelect"
  | roundRobin => "RoundRobin"
  | weightedRoundRobin => "WeightedRoundRobin"
  | weightedRandom => "WeightedRandom"
  | leastActive => "LeastActive"
  | fastest => "Fastest"

instance : Enumeration SelectMode :=
  ⟨[random, roundRobin, weightedRoundRobin, weightedRandom, leastActive, fastest], name⟩

def code : SelectMode → UInt8
  | random => 0
  | roundRobin => 1
  | weightedRoundRobin => 2
  | weightedRandom => 3
  | leastActive => 4
  | fastest => 5

end SelectMode

/-- How many instances a call goes to, and which answer counts. -/
inductive CallMode where
  | unary
  | broadcastFastest
  | broadcastAll
deriving DecidableEq, Repr, Inhabited

namespace CallMode

def name : CallMode → String
  | unary => "Unary"
  | broadcastFastest => "BroadcastFastest"
  | broadcastAll => "BroadcastAll"

instance : Enumeration CallMode := ⟨[unary, broadcastFastest, broadcastAll], name⟩

end CallMode

inductive EventType where
  | unknown
  | add
  | delete
deriving DecidableEq, Repr, Inhabited

namespace EventType

def name : EventType → String
  | unknown => "Unknown"
  | add => "Add"
  | delete => "Delete"

instance : Enumeration EventType := ⟨[unknown, add, delete], name⟩

end EventType
end RemoteCall
