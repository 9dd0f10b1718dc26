import RemoteCall.Data.Words
import RemoteCall.Error
import RemoteCall.Gzip.Inflate

/-! The gzip container: a header, a deflate stream, then checksum and size of what it holds.

Here is its reader. How a payload is deflated is up to the encoder at hand. -/

/-! The CRC-32 checksum -/

namespace RemoteCall.Crc32

def shift (r : UInt32) : UInt32 :=
  if r &&& 1 == 1 then (r >>> 1) ^^^ 0xEDB88320 else r >>> 1

def table : Array UInt32 :=
  Array.ofFn fun i : Fin 256 => (List.range 8).foldl (fun r _ => shift r) (UInt32.ofNat i.val)

def update (r : UInt32) (b : UInt8) : UInt32 :=
  table.getD ((r ^^^ b.toUInt32) &&& 0xFF).toNat 0 ^^^ (r >>> 8)

def checksum (bytes : ByteArray) : UInt32 :=
  bytes.foldl update 0xFFFFFFFF ^^^ 0xFFFFFFFF

end RemoteCall.Crc32

/-! The container -/

namespace RemoteCall.Gzip

class Encoder where
  encode : ByteArray → Result ByteArray

def trailer (payload : ByteArray) : List UInt8 :=
  littleEndian 4 (Crc32.checksum payload).toNat ++ littleEndian 4 payload.size

/-- The longest name or comment in a header. -/
def maxFieldLength : Nat := 65535

/-- The index of the first zero byte from `pos` on, within the longest field. -/
def zeroFrom (bytes : ByteArray) : (fuel pos : Nat) → Option Nat
  | 0, _ => none
  | fuel + 1, pos =>
    if h : pos < bytes.size then
      if bytes[pos] == 0 then some pos else zeroFrom bytes fuel (pos + 1)
    else none

/-- Skips an optional extra field, name, comment and header checksum, in this order. -/
def skipOptional (bytes : ByteArray) (flags : Nat) : Option Nat := do
  let has (i : Nat) : Bool := flags.testBit i
  let pos := 10
  let pos ← if has 2 then
      let next := pos + 2 + littleEndianAt bytes pos 2
      if next ≤ bytes.size then some next else none
    else some pos
  let field (pos : Nat) (i : Nat) : Option Nat :=
    if has i then (zeroFrom bytes (maxFieldLength + 1) pos).map (· + 1) else some pos
  let pos ← field pos 3
  let pos ← field pos 4
  if has 1 then
    let sum := (Crc32.checksum (bytes.extract 0 pos)).toNat % 65536
    if pos + 2 ≤ bytes.size && littleEndianAt bytes pos 2 == sum then some (pos + 2) else none
  else some pos

/-- The index of the first byte of the stream. Reserved flags must be clear. -/
def streamStart (bytes : ByteArray) : Option Nat :=
  if 10 ≤ bytes.size && (bytes.extract 0 3).data == #[0x1F, 0x8B, 8] then
    let flags := (byteAt bytes 3).toNat
    if flags < 32 then skipOptional bytes flags else none
  else none

/-- Restores a payload of at most `limit` bytes. Only the first member is read. That the bound is
passed is found before the trailer is looked at. -/
def decompress (limit : Nat) (bytes : ByteArray) : Except Inflate.Fault ByteArray :=
  match streamStart bytes with
  | none => .error .corrupt
  | some start => do
    let (out, next) ← Inflate.inflate bytes limit start
    if bytes.extract next (next + 8) == (trailer out).toByteArray then pure out
    else .error .corrupt

end RemoteCall.Gzip
