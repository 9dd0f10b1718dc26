import RemoteCall.Codes
import RemoteCall.Data.KeyMap
import RemoteCall.Message.Head
import RemoteCall.Text.Utf8

/-! Requests: the service and method to call, metadata, and encoded arguments.

After the fixed head the header holds the service name, the method name and the metadata in key
order. Every field ends with a line feed, and a carriage return parts a key from its value, so no
field that is written may hold either byte. -/
namespace RemoteCall

/-- Entries that travel with a call, in key order. -/
abbrev Metadata := KeyMap String

/-- Ends the service name, the method name and every metadata entry. -/
def splitter : UInt8 := 10

/-- Parts the key of an entry from its value. -/
def pairSplitter : UInt8 := 13

def deadlineKey : String := "deadline"
def onewayKey : String := "one-way"
def groupKey : String := "group"

/-- The two lengths are kept as last computed or received; writing a request computes them anew. -/
structure Request where
  headLength : UInt32 := 0
  bodyLength : UInt32 := 0
  codes : Codes := {}
  service : String := ""
  method : String := ""
  metadata : Metadata := .empty
  data : ByteArray := ByteArray.empty
deriving Inhabited

namespace Request

def fields (r : Request) :
    (UInt32 × UInt32 × Codes) × (String × String) × Metadata × Array UInt8 :=
  ((r.headLength, r.bodyLength, r.codes), (r.service, r.method), r.metadata, r.data.data)

theorem fields_inj {r s : Request} : r.fields = s.fields ↔ r = s := by
  cases r
  cases s
  simp [fields, ByteArray.ext_iff, and_assoc]

instance : DecidableEq Request := fun r s => decidable_of_iff (r.fields = s.fields) fields_inj

def headerSize (r : Request) : Nat :=
  r.metadata.entries.foldl
    (fun n e => n + (e.1.utf8ByteSize + 1 + e.2.utf8ByteSize + 1))
    (headSize + (r.service.utf8ByteSize + 1) + (r.method.utf8ByteSize + 1))

def withLengths (r : Request) : Request :=
  { r with headLength := UInt32.ofNat r.headerSize, bodyLength := UInt32.ofNat r.data.size }

def new (service method : String) : Request :=
  { service, method : Request }.withLengths

def withMessageId (r : Request) (id : UInt32) : Request :=
  { r with codes.messageId := id }

def withCodes (r : Request) (serializer : SerializeType) (compressor : CompressType) : Request :=
  { r with codes.serializer := serializer.code, codes.compressor := compressor.code }

def withMetadata (r : Request) (key value : String) : Request :=
  { r with metadata := r.metadata.insert key value }.withLengths

def withData (r : Request) (data : ByteArray) : Request :=
  { r with data }.withLengths

/-- The caller does not wait for a response. -/
def isOneway (r : Request) : Bool :=
  r.metadata.get? onewayKey == some "true"

/-- An unsigned number of 64 bits in decimal: digits, with one leading plus sign allowed. -/
def decimal64? (text : String) : Option Nat :=
  let digits := match text.toList with
    | '+' :: rest => rest
    | all => all
  if digits.isEmpty || !digits.all Char.isDigit then none
  else
    let n := digits.foldl (fun n c => n * 10 + (c.toNat - '0'.toNat)) 0
    if n < UInt64.size then some n else none

/-- The absolute deadline in milliseconds since the epoch, if there is a readable one. -/
def deadlineMillis (r : Request) : Option Nat :=
  r.metadata.get? deadlineKey >>= decimal64?

/-- Sets the absolute deadline, given in nanoseconds since the epoch and rounded down to
milliseconds; a time before the epoch counts as the epoch. -/
def setDeadline (r : Request) (nanos : Int) : Request :=
  r.withMetadata deadlineKey (toString (nanos.toNat / 1000000))

def isSeparator (b : UInt8) : Bool := b == splitter || b == pairSplitter

def checkField (name text : String) : Result Unit :=
  if (utf8 text).any isSeparator then
    .error ⟨.encode, name ++ " " ++ Quoted.quote text ++ " contains a separator byte"⟩
  else .ok ()

def checkEntries : List (String × String) → Result Unit
  | [] => .ok ()
  | (key, value) :: rest => do
    checkField "meta key" key
    checkField "meta value" value
    checkEntries rest

def checkFields (r : Request) : Result Unit := do
  checkField "service name" r.service
  checkField "method" r.method
  checkEntries r.metadata.entries

def entryBytes (e : String × String) : List UInt8 :=
  utf8 e.1 ++ pairSplitter :: utf8 e.2 ++ [splitter]

def fieldBytes (r : Request) : List UInt8 :=
  utf8 r.service ++ splitter :: utf8 r.method ++ splitter :: r.metadata.entries.flatMap entryBytes

def encode (r : Request) : Result ByteArray := do
  r.checkFields
  let (header, body) ← lengthWords r.headerSize r.data.size
  pure ((fixedHead header body r.codes ++ r.fieldBytes).toByteArray ++ r.data)

/-- Cuts at the first occurrence of a byte, which is left out. -/
def cut (b : UInt8) (bytes : List UInt8) : Option (List UInt8 × List UInt8) :=
  match bytes.dropWhile (· != b) with
  | [] => none
  | _ :: rest => some (bytes.takeWhile (· != b), rest)

theorem length_cut {b : UInt8} {bytes first rest : List UInt8}
    (h : cut b bytes = some (first, rest)) : rest.length < bytes.length := by
  have le := (List.dropWhile_suffix (l := bytes) (· != b)).length_le
  unfold cut at h
  split at h
  · cases h
  · rename_i eq
    rw [eq] at le
    obtain ⟨-, rfl⟩ := Prod.mk.inj (Option.some.inj h)
    exact Nat.lt_of_succ_le le

def readText (bytes : List UInt8) : Except Malformed String :=
  match Utf8.decode bytes.toByteArray with
  | .ok text => .ok text
  | .error fault => .error (.text fault.message)

def readField (name : String) (bytes : List UInt8) : Except Malformed (String × List UInt8) :=
  match cut splitter bytes with
  | none => .error (.unterminated name)
  | some (field, rest) => do pure (← readText field, rest)

def readEntry (bytes : List UInt8) : Except Malformed (String × String) :=
  match cut pairSplitter bytes with
  | none => .error .entryWithoutValue
  | some (key, value) => do pure (← readText key, ← readText value)

/-- Reads the entries up to the end of the header, each key once. -/
def readEntries (known : Metadata) (bytes : List UInt8) : Except Malformed Metadata :=
  if bytes.isEmpty then .ok known
  else
    match _h : cut splitter bytes with
    | none => .error .entryUnterminated
    | some (entry, rest) =>
      match readEntry entry with
      | .error m => .error m
      | .ok (key, value) =>
        if known.contains key then .error (.repeatedKey key)
        else readEntries (known.insert key value) rest
termination_by bytes.length
decreasing_by exact length_cut (by assumption)

def decode? (frame : ByteArray) : Except Malformed Request := do
  let header ← headerLength frame
  let (service, rest) ← readField "service name" (frame.extract headSize header).data.toList
  let (method, rest) ← readField "method" rest
  let metadata ← readEntries .empty rest
  pure {
    headLength := UInt32.ofNat header
    bodyLength := UInt32.ofNat (frame.size - header)
    codes := codesAt frame
    service, method, metadata
    data := frame.extract header frame.size }

def decode (frame : ByteArray) : Result Request := (decode? frame).mapError Malformed.toError

end Request
end RemoteCall
