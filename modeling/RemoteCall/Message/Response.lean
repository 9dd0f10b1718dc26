import RemoteCall.Message.Request

/-! Responses: an error text, which is empty after success, and encoded data.

Both halves may be present: a handler can fail and still hand back what it has. -/
namespace RemoteCall

/-- After the fixed head the header holds the error text as it is. -/
structure Response where
  headLength : UInt32 := 0
  bodyLength : UInt32 := 0
  codes : Codes := {}
  error : ByteArray := ByteArray.empty
  data : ByteArray := ByteArray.empty
deriving Inhabited

namespace Response

def fields (r : Response) : UInt32 × UInt32 × Codes × Array UInt8 × Array UInt8 :=
  (r.headLength, r.bodyLength, r.codes, r.error.data, r.data.data)

theorem fields_inj {r s : Response} : r.fields = s.fields ↔ r = s := by
  cases r
  cases s
  simp [fields, ByteArray.ext_iff]

instance : DecidableEq Response := fun r s => decidable_of_iff (r.fields = s.fields) fields_inj

def headerSize (r : Response) : Nat := headSize + r.error.size

def withLengths (r : Response) : Response :=
  { r with headLength := UInt32.ofNat r.headerSize, bodyLength := UInt32.ofNat r.data.size }

def replyTo (request : Request) : Response :=
  { codes := request.codes : Response }.withLengths

def withError (r : Response) (text : String) : Response :=
  { r with error := text.toUTF8 }.withLengths

def withData (r : Response) (data : ByteArray) : Response :=
  { r with data }.withLengths

def hasError (r : Response) : Bool := !r.error.isEmpty

/-- The error text, if there is one; bytes that are no text are replaced. -/
def errorText (r : Response) : Option String :=
  if r.hasError then some (Utf8.decodeLossy r.error) else none

def encode (r : Response) : Result ByteArray := do
  let (header, body) ← lengthWords r.headerSize r.data.size
  pure ((fixedHead header body r.codes).toByteArray ++ r.error ++ r.data)

def decode? (frame : ByteArray) : Except Malformed Response := do
  let header ← headerLength frame
  pure {
    headLength := UInt32.ofNat header
    bodyLength := UInt32.ofNat (frame.size - header)
    codes := codesAt frame
    error := frame.extract headSize header
    data := frame.extract header frame.size }

def decode (frame : ByteArray) : Result Response := (decode? frame).mapError Malformed.toError

end Response
end RemoteCall
