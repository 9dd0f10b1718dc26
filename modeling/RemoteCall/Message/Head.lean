import RemoteCall.Data.Words
import RemoteCall.Text.Quoted
import RemoteCall.Error

/-! The fixed head of a frame, shared by requests and responses.

A frame is a header and a body. The header begins with fifteen bytes: the lengths of header and
body, the message id, and one byte each for version, compressor and serializer. -/
namespace RemoteCall

def headSize : Nat := 15

/-- The part of the fixed head that gives the size of the frame. -/
def lengthsSize : Nat := 8

/-- What the fixed head says besides the two lengths. -/
structure Codes where
  messageId : UInt32 := 0
  version : UInt8 := 0
  compressor : UInt8 := 0
  serializer : UInt8 := 0
deriving DecidableEq, Repr, Inhabited

def fixedHead (header body : UInt32) (codes : Codes) : List UInt8 :=
  bigEndian32 header ++ bigEndian32 body ++ bigEndian32 codes.messageId ++
    [codes.version, codes.compressor, codes.serializer]

/-- Lengths are written as words of 32 bits. -/
def lengthWords (header body : Nat) : Result (UInt32 × UInt32) :=
  if UInt32.size ≤ header then .error ⟨.encode, "header too large"⟩
  else if UInt32.size ≤ body then .error ⟨.encode, "body too large"⟩
  else .ok (UInt32.ofNat header, UInt32.ofNat body)

inductive Malformed where
  | short (size : Nat)
  | headerLength (length size : Nat)
  | bodyLength (length rest : Nat)
  | unterminated (field : String)
  | entryUnterminated
  | entryWithoutValue
  | text (fault : String)
  | repeatedKey (key : String)
  | headerBelowHead (length : Nat)
  | tooLong
  | ended
deriving DecidableEq, Repr

namespace Malformed

def message : Malformed → String
  | short size => s!"frame of {size} bytes is shorter than the fixed header"
  | headerLength length size => s!"invalid head length {length} for frame of {size} bytes"
  | bodyLength length rest =>
    s!"body length {length} does not match the {rest} bytes after the header"
  | unterminated field => s!"unterminated {field}"
  | entryUnterminated => "unterminated meta entry"
  | entryWithoutValue => "meta entry without value"
  | text fault => fault
  | repeatedKey key => s!"duplicated meta key {key}"
  | headerBelowHead length => s!"head length {length} is shorter than the fixed header"
  | tooLong => "frame exceeds the maximum length"
  | ended => "early eof"

def toError (m : Malformed) : Error := ⟨.protocol, m.message⟩

end Malformed

/-- The header length of a complete frame, once both lengths are found to fit it. -/
def headerLength (frame : ByteArray) : Except Malformed Nat :=
  let header := bigEndianAt frame 0 4
  let body := bigEndianAt frame 4 4
  if frame.size < headSize then .error (.short frame.size)
  else if header < headSize ∨ frame.size < header then .error (.headerLength header frame.size)
  else if frame.size - header ≠ body then .error (.bodyLength body (frame.size - header))
  else .ok header

def codesAt (frame : ByteArray) : Codes where
  messageId := UInt32.ofNat (bigEndianAt frame 8 4)
  version := byteAt frame 12
  compressor := byteAt frame 13
  serializer := byteAt frame 14

end RemoteCall
