import RemoteCall.Message.Request

/-! Reading a request by places in its bytes.

Bytes are looked up by place, and parts are cut out between two places. To go to a place outside of
the bytes ends the reader without an answer. -/
namespace RemoteCall

/-- A step of a reader: none if it went to a place outside of the bytes. -/
abbrev Reading := ExceptT Malformed Option

namespace Reading
variable {α : Type}

def outside : Reading α := ExceptT.mk none

def ofOption (o : Option α) : Reading α := ExceptT.mk (o.map .ok)

end Reading

def slice? (bytes : List UInt8) (start stop : Nat) : Option (List UInt8) :=
  if start ≤ stop ∧ stop ≤ bytes.length then some ((bytes.take stop).drop start) else none

theorem length_slice? {bytes rest : List UInt8} {n : Nat}
    (h : slice? bytes (n + 1) bytes.length = some rest) : rest.length < bytes.length := by
  unfold slice? at h
  split at h
  · rename_i hn
    obtain rfl := Option.some.inj h
    rw [List.length_drop, List.length_take]
    omega
  · cases h

/-- The number in the first four bytes, most significant first. -/
def word? : List UInt8 → Option Nat
  | a :: b :: c :: d :: _ => some (((a.toNat * 256 + b.toNat) * 256 + c.toNat) * 256 + d.toNat)
  | _ => none

def position (b : UInt8) (bytes : List UInt8) : Option Nat := bytes.findIdx? (· == b)

namespace Request
open Reading

def wordBetween (bytes : List UInt8) (start stop : Nat) : Reading Nat := do
  let word ← ofOption (slice? bytes start stop)
  ofOption (word? word)

def lengthsByPlace (bytes : List UInt8) : Reading (Nat × Nat) := do
  if bytes.length < headSize then throw (.short bytes.length)
  let header ← wordBetween bytes 0 4
  let body ← wordBetween bytes 4 8
  if header < headSize ∨ bytes.length < header then throw (.headerLength header bytes.length)
  if bytes.length - header ≠ body then throw (.bodyLength body (bytes.length - header))
  pure (header, body)

def fieldByPlace (name : String) (bytes : List UInt8) : Reading (String × List UInt8) := do
  match position splitter bytes with
  | none => throw (.unterminated name)
  | some stop =>
    let text ← ofExcept (readText (← ofOption (slice? bytes 0 stop)))
    pure (text, ← ofOption (slice? bytes (stop + 1) bytes.length))

def entryByPlace (bytes : List UInt8) : Reading (String × String) := do
  match position pairSplitter bytes with
  | none => throw .entryWithoutValue
  | some stop =>
    let key ← ofExcept (readText (← ofOption (slice? bytes 0 stop)))
    let value ← ofExcept (readText (← ofOption (slice? bytes (stop + 1) bytes.length)))
    pure (key, value)

def entriesByPlace (known : Metadata) (bytes : List UInt8) : Reading Metadata := do
  if bytes.isEmpty then pure known
  else
    match position splitter bytes with
    | none => throw .entryUnterminated
    | some stop =>
      let (key, value) ← entryByPlace (← ofOption (slice? bytes 0 stop))
      if known.contains key then throw (.repeatedKey key)
      else
        -- not by `ofOption`, as what is left has to be seen to be shorter
        match _h : slice? bytes (stop + 1) bytes.length with
        | none => outside
        | some rest => entriesByPlace (known.insert key value) rest
termination_by bytes.length
decreasing_by exact length_slice? (by assumption)

def readByPlace (bytes : List UInt8) : Reading Request := do
  let (header, body) ← lengthsByPlace bytes
  let messageId ← wordBetween bytes 8 12
  let version ← ofOption bytes[12]?
  let compressor ← ofOption bytes[13]?
  let serializer ← ofOption bytes[14]?
  let (service, rest) ← fieldByPlace "service name" (← ofOption (slice? bytes headSize header))
  let (method, rest) ← fieldByPlace "method" rest
  let metadata ← entriesByPlace .empty rest
  let data ← ofOption (slice? bytes header bytes.length)
  pure {
    headLength := UInt32.ofNat header
    bodyLength := UInt32.ofNat body
    codes := { messageId := UInt32.ofNat messageId, version, compressor, serializer }
    service, method, metadata
    data := data.toByteArray }

/-- Reads a complete frame; none if the reader went outside of it. -/
def decodeByPlace (frame : ByteArray) : Option (Result Request) :=
  (readByPlace frame.data.toList).run.map fun r => r.mapError Malformed.toError

end Request
end RemoteCall
