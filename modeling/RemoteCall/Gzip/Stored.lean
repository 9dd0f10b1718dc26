import RemoteCall.Gzip.Container

/-! An encoder that stores the payload in plain blocks, which every reader of the format accepts. -/
namespace RemoteCall.Gzip

/-- The header that is written: no name, no time, system unknown. -/
def header : List UInt8 := [0x1F, 0x8B, 8, 0, 0, 0, 0, 0, 0, 0xFF]

def blockSize : Nat := 65535

def plainBlock (last : Bool) (bytes : ByteArray) : ByteArray :=
  ((if last then 1 else 0) :: littleEndian 2 bytes.size ++
    littleEndian 2 (65535 - bytes.size)).toByteArray ++ bytes

def plainBlocks (payload : ByteArray) (start : Nat) (out : ByteArray) : ByteArray :=
  if payload.size ≤ start + blockSize then
    out ++ plainBlock true (payload.extract start payload.size)
  else
    plainBlocks payload (start + blockSize)
      (out ++ plainBlock false (payload.extract start (start + blockSize)))
termination_by payload.size - start
decreasing_by simp only [blockSize] at *; omega

def store (payload : ByteArray) : ByteArray :=
  plainBlocks payload 0 header.toByteArray ++ (trailer payload).toByteArray

instance stored : Encoder := ⟨fun payload => .ok (store payload)⟩

end RemoteCall.Gzip
