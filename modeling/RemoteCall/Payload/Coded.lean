import RemoteCall.Message.Head
import RemoteCall.Payload

/-! Payloads as the codes of a frame say: written by the serializer, then packed by the compressor.
-/
namespace RemoteCall.Codes

def write [Gzip.Encoder] {α : Type} [Encodable α] (c : Codes) (a : α) : Result ByteArray := do
  let plain ← (← SerializeType.ofCode c.serializer).encode a
  (← CompressType.ofCode c.compressor).compress plain

def read {α : Type} [Decodable α] (c : Codes) (data : ByteArray) : Result α := do
  let plain ← (← CompressType.ofCode c.compressor).decompress data
  (← SerializeType.ofCode c.serializer).decode plain

end RemoteCall.Codes
