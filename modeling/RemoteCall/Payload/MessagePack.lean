import RemoteCall.Data.Words
import RemoteCall.Payload.Document

/-! MessagePack: reading bytes into a document, and writing a document in its shortest form. -/
namespace RemoteCall.MessagePack

/-- Lists, maps and extensions may be nested one level less than this. -/
def levelLimit : Nat := 1024

def takeBytes (n : Nat) (bytes : List UInt8) : Option (List UInt8 × List UInt8) :=
  let first := bytes.take n
  if first.length == n then some (first, bytes.drop n) else none

def takeNumber (n : Nat) (bytes : List UInt8) : Option (Nat × List UInt8) := do
  let (first, rest) ← takeBytes n bytes
  pure (first.foldl (fun v b => v * 256 + b.toNat) 0, rest)

/-- The value of `n` bytes in two's complement. -/
def signed (n value : Nat) : Int :=
  if value < 1 <<< (8 * n - 1) then value else (value : Int) - (1 <<< (8 * n) : Nat)

/-- A text, or the bytes themselves when they write none. -/
def textOf (bytes : List UInt8) : Document :=
  match String.fromUTF8? bytes.toByteArray with
  | some t => .text t
  | none => .bytes bytes.toByteArray

inductive Marker where
  | scalar (d : Document)
  | unsigned (size : Nat)
  | signed (size : Nat)
  | float32
  | float64
  | text (length : Nat)
  | textLong (size : Nat)
  | bytes (size : Nat)
  | list (count : Nat)
  | listLong (size : Nat)
  | map (count : Nat)
  | mapLong (size : Nat)
  | extension (length : Nat)
  | extensionLong (size : Nat)
  | reserved

def markerOf (lead : Nat) : Marker :=
  if lead < 0x80 then .scalar (.nat lead)
  else if lead < 0x90 then .map (lead - 0x80)
  else if lead < 0xA0 then .list (lead - 0x90)
  else if lead < 0xC0 then .text (lead - 0xA0)
  else if 0xE0 ≤ lead then .scalar (.int ((lead : Int) - 0x100))
  else match lead with
    | 0xC0 => .scalar .null
    | 0xC2 => .scalar (.bool false)
    | 0xC3 => .scalar (.bool true)
    | 0xC4 => .bytes 1
    | 0xC5 => .bytes 2
    | 0xC6 => .bytes 4
    | 0xC7 => .extensionLong 1
    | 0xC8 => .extensionLong 2
    | 0xC9 => .extensionLong 4
    | 0xCA => .float32
    | 0xCB => .float64
    | 0xCC => .unsigned 1
    | 0xCD => .unsigned 2
    | 0xCE => .unsigned 4
    | 0xCF => .unsigned 8
    | 0xD0 => .signed 1
    | 0xD1 => .signed 2
    | 0xD2 => .signed 4
    | 0xD3 => .signed 8
    | 0xD4 => .extension 1
    | 0xD5 => .extension 2
    | 0xD6 => .extension 4
    | 0xD7 => .extension 8
    | 0xD8 => .extension 16
    | 0xD9 => .textLong 1
    | 0xDA => .textLong 2
    | 0xDB => .textLong 4
    | 0xDC => .listLong 2
    | 0xDD => .listLong 4
    | 0xDE => .mapLong 2
    | 0xDF => .mapLong 4
    | _ => .reserved

mutual
/-- Reads one value; `levels` more may be open. -/
def readValue (levels : Nat) : (fuel : Nat) → List UInt8 → Option (Document × List UInt8)
  | 0, _ => none
  | _, [] => none
  | fuel + 1, lead :: rest =>
    match markerOf lead.toNat with
    | .scalar d => some (d, rest)
    | .unsigned size => (takeNumber size rest).map fun (n, rest) => (.nat n, rest)
    | .signed size => (takeNumber size rest).map fun (n, rest) => (.int (signed size n), rest)
    | .float32 => (takeNumber 4 rest).map fun (n, rest) =>
        (.float (Binary64.ofBinary32 (UInt32.ofNat n)), rest)
    | .float64 => (takeNumber 8 rest).map fun (n, rest) => (.float ⟨UInt64.ofNat n⟩, rest)
    | .text length => (takeBytes length rest).map fun (b, rest) => (textOf b, rest)
    | .textLong size => do
      let (length, rest) ← takeNumber size rest
      let (b, rest) ← takeBytes length rest
      pure (textOf b, rest)
    | .bytes size => do
      let (length, rest) ← takeNumber size rest
      let (b, rest) ← takeBytes length rest
      pure (.bytes b.toByteArray, rest)
    | .list count => if levels ≤ 1 then none else readItems (levels - 1) fuel count [] rest
    | .listLong size => do
      let (count, rest) ← takeNumber size rest
      if levels ≤ 1 then none else readItems (levels - 1) fuel count [] rest
    | .map count => if levels ≤ 1 then none else readEntries (levels - 1) fuel count [] rest
    | .mapLong size => do
      let (count, rest) ← takeNumber size rest
      if levels ≤ 1 then none else readEntries (levels - 1) fuel count [] rest
    | .extension length => do
      let (_, rest) ← takeBytes (length + 1) rest
      if levels ≤ 1 then none else some (.extension, rest)
    | .extensionLong size => do
      let (length, rest) ← takeNumber size rest
      let (_, rest) ← takeBytes (length + 1) rest
      if levels ≤ 1 then none else some (.extension, rest)
    | .reserved => none

/-- Reads `count` items; `done` holds those before them, the last one first. -/
def readItems (levels : Nat) :
    (fuel count : Nat) → (done : List Document) → List UInt8 → Option (Document × List UInt8)
  | 0, _, _, _ => none
  | _, 0, done, bytes => some (.list done.reverse, bytes)
  | fuel + 1, count + 1, done, bytes =>
    match readValue levels fuel bytes with
    | none => none
    | some (d, rest) => readItems levels fuel count (d :: done) rest

def readEntries (levels : Nat) :
    (fuel count : Nat) → (done : List (Document × Document)) → List UInt8 →
    Option (Document × List UInt8)
  | 0, _, _, _ => none
  | _, 0, done, bytes => some (.map done.reverse, bytes)
  | fuel + 1, count + 1, done, bytes =>
    match readValue levels fuel bytes with
    | none => none
    | some (key, rest) =>
      match readValue levels fuel rest with
      | none => none
      | some (d, rest) => readEntries levels fuel count ((key, d) :: done) rest
end

/-- Reads the first value; bytes after it are passed over. A value takes at least one byte, so no
reading goes deeper than twice the number of bytes. -/
def read? (bytes : ByteArray) : Option Document :=
  (readValue levelLimit (2 * bytes.size + 2) bytes.data.toList).map (·.1)

/-- A lead byte chosen by the size of a count: small counts go into the lead byte itself. -/
def sized (small : Nat) (smallLead : Nat) (longer : List (Nat × UInt8)) (n : Nat) : List UInt8 :=
  if n < small then [UInt8.ofNat (smallLead + n)]
  else
    match longer.find? fun e => n < 1 <<< (8 * e.1) with
    | some (size, lead) => lead :: bigEndian size n
    | none => []

def natBytes (n : Nat) : List UInt8 :=
  sized 0x80 0 [(1, 0xCC), (2, 0xCD), (4, 0xCE), (8, 0xCF)] n

/-- A negative number in the fewest bytes of two's complement. -/
def negativeBytes (i : Int) : List UInt8 :=
  let wrap (size : Nat) : Nat := (i + (1 <<< (8 * size) : Nat)).toNat
  if -32 ≤ i then [UInt8.ofNat (wrap 1)]
  else if -128 ≤ i then 0xD0 :: bigEndian 1 (wrap 1)
  else if -32768 ≤ i then 0xD1 :: bigEndian 2 (wrap 2)
  else if -2147483648 ≤ i then 0xD2 :: bigEndian 4 (wrap 4)
  else 0xD3 :: bigEndian 8 (wrap 8)

def textBytes (t : String) : List UInt8 :=
  let b := utf8 t
  sized 32 0xA0 [(1, 0xD9), (2, 0xDA), (4, 0xDB)] b.length ++ b

mutual
def bytes : Document → List UInt8
  | .bool false => [0xC2]
  | .bool true => [0xC3]
  | .nat n => natBytes n
  | .int i => if i < 0 then negativeBytes i else natBytes i.toNat
  | .float x => 0xCB :: bigEndian 8 x.bits.toNat
  | .text t => textBytes t
  | .bytes b => sized 0 0 [(1, 0xC4), (2, 0xC5), (4, 0xC6)] b.size ++ b.data.toList
  | .list items => sized 16 0x90 [(2, 0xDC), (4, 0xDD)] items.length ++ listBytes items
  | .map entries => sized 16 0x80 [(2, 0xDE), (4, 0xDF)] entries.length ++ entriesBytes entries
  | .null | .badText | .extension => [0xC0]

def listBytes : List Document → List UInt8
  | [] => []
  | d :: rest => bytes d ++ listBytes rest

def entriesBytes : List (Document × Document) → List UInt8
  | [] => []
  | (key, d) :: rest => bytes key ++ bytes d ++ entriesBytes rest
end

def write (d : Document) : ByteArray := (bytes d).toByteArray

end RemoteCall.MessagePack
