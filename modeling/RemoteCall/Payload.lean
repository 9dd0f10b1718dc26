import RemoteCall.Codes
import RemoteCall.Gzip.Container
import RemoteCall.Message.Stream
import RemoteCall.Payload.Json
import RemoteCall.Payload.MessagePack
import RemoteCall.Payload.Value

/-! Payloads: values written by a serializer, then packed by a compressor, and the way back. -/
namespace RemoteCall

inductive PayloadFault where
  | json
  | messagePack
  | gzip
deriving DecidableEq, Repr

def PayloadFault.message : PayloadFault → String
  | json => "payload is no JSON of the expected form"
  | messagePack => "payload is no MessagePack of the expected form"
  | gzip => "payload is no gzip stream"

namespace SerializeType

def unsupported (t : SerializeType) : Error := ⟨.serialize, "unsupported serializer " ++ t.name⟩

/-- Levels of lists and maps that a free value may have. -/
def levels : SerializeType → Nat
  | msgPack => 1023
  | _ => 127

def writer? : SerializeType → Option (Document → ByteArray)
  | json => some Json.write
  | msgPack => some MessagePack.write
  | none | protoBuffer => Option.none

def reader? : SerializeType → Option ((ByteArray → Option Document) × PayloadFault)
  | json => some (Json.read?, .json)
  | msgPack => some (MessagePack.read?, .messagePack)
  | none | protoBuffer => Option.none

def encode {α : Type} [Encodable α] (t : SerializeType) (a : α) : Result ByteArray :=
  match t.writer? with
  | Option.none => .error t.unsupported
  | some write =>
    match Encodable.toDocument a with
    | .ok d => .ok (write d)
    | .error text => .error ⟨.serialize, text⟩

def decode {α : Type} [Decodable α] (t : SerializeType) (data : ByteArray) : Result α :=
  match t.reader? with
  | Option.none => .error t.unsupported
  | some (read, fault) =>
    match (read data).bind (Decodable.ofDocument? t.levels) with
    | some a => .ok a
    | Option.none => .error ⟨.serialize, fault.message⟩

end SerializeType

namespace CompressType

def compress [Gzip.Encoder] : CompressType → ByteArray → Result ByteArray
  | none, data => .ok data
  | gzip, data => Gzip.Encoder.encode data

/-- A payload never inflates beyond the largest frame. -/
def decompress : CompressType → ByteArray → Result ByteArray
  | none, data => .ok data
  | gzip, data =>
    match Gzip.decompress Stream.maxFrame data with
    | .ok out => .ok out
    | .error .tooLarge => .error ⟨.compress, s!"payload inflates beyond {Stream.maxFrame} bytes"⟩
    | .error .corrupt => .error ⟨.compress, PayloadFault.gzip.message⟩

end CompressType
end RemoteCall
