/-! Fixed-width numbers in byte strings. -/
namespace RemoteCall

/-- The byte at an index, zero past the end. -/
def byteAt (bytes : ByteArray) (i : Nat) : UInt8 :=
  if h : i < bytes.size then bytes[i] else 0

def bigEndian32 (w : UInt32) : List UInt8 :=
  [(w >>> 24).toUInt8, (w >>> 16).toUInt8, (w >>> 8).toUInt8, w.toUInt8]

/-- The number in the bytes `start ≤ i < start + count`, most significant first; bytes past the end
count as zero. -/
def bigEndianAt (bytes : ByteArray) (start count : Nat) : Nat :=
  (List.range count).foldl (fun n i => n * 256 + (byteAt bytes (start + i)).toNat) 0

def littleEndian (count n : Nat) : List UInt8 :=
  (List.range count).map fun i => UInt8.ofNat (n >>> (8 * i))

/-- The number in the bytes `start ≤ i < start + count`, least significant first. -/
def littleEndianAt (bytes : ByteArray) (start count : Nat) : Nat :=
  (List.range count).foldr (fun i n => n * 256 + (byteAt bytes (start + i)).toNat) 0

def bigEndian (count n : Nat) : List UInt8 := (littleEndian count n).reverse

def utf8 (text : String) : List UInt8 := text.toUTF8.data.toList

end RemoteCall
