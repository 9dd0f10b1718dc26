/-! Text from bytes.

Header fields must be valid UTF-8, and a field that is not is refused with the place and the extent
of the first bad sequence. The text of a remote failure is shown whatever its bytes are. -/
namespace RemoteCall.Utf8

inductive Step where
  /-- One scalar value, written with `more + 1` bytes. -/
  | scalar (more : Nat)
  /-- `more + 1` bytes that begin no scalar value together with the byte after them. -/
  | broken (more : Nat)
  /-- The bytes end inside a sequence that is valid so far. -/
  | cut
deriving DecidableEq, Repr

/-- How many bytes follow a lead byte, and the range of the first of them. The ranges leave out
overlong forms, surrogates and values above the last scalar value. -/
def following (b : UInt8) : Option (Nat × UInt8 × UInt8) :=
  if b < 0x80 then some (0, 0x80, 0xBF)
  else if b < 0xC2 then none
  else if b < 0xE0 then some (1, 0x80, 0xBF)
  else if b == 0xE0 then some (2, 0xA0, 0xBF)
  else if b == 0xED then some (2, 0x80, 0x9F)
  else if b < 0xF0 then some (2, 0x80, 0xBF)
  else if b == 0xF0 then some (3, 0x90, 0xBF)
  else if b < 0xF4 then some (3, 0x80, 0xBF)
  else if b == 0xF4 then some (3, 0x80, 0x8F)
  else none

/-- Checks the bytes after the lead byte; `seen` of them have been accepted. -/
def continuation (seen : Nat) : Nat → UInt8 × UInt8 → List UInt8 → Step
  | 0, _, _ => .scalar seen
  | _ + 1, _, [] => .cut
  | more + 1, (low, high), b :: rest =>
    if low ≤ b ∧ b ≤ high then continuation (seen + 1) more (0x80, 0xBF) rest else .broken seen

def step (lead : UInt8) (rest : List UInt8) : Step :=
  match following lead with
  | none => .broken 0
  | some (more, range) => continuation 0 more range rest

inductive Fault where
  | invalid (length start : Nat)
  | incomplete (start : Nat)
deriving DecidableEq, Repr

def Fault.message : Fault → String
  | invalid length start => s!"invalid utf-8 sequence of {length} bytes from index {start}"
  | incomplete start => s!"incomplete utf-8 byte sequence from index {start}"

def faultFrom (start : Nat) : List UInt8 → Option Fault
  | [] => none
  | lead :: rest =>
    match step lead rest with
    | .scalar more => faultFrom (start + more + 1) (rest.drop more)
    | .broken more => some (.invalid (more + 1) start)
    | .cut => some (.incomplete start)
termination_by bytes => bytes.length
decreasing_by simp only [List.length_drop, List.length_cons]; omega

def decode (bytes : ByteArray) : Except Fault String :=
  match String.fromUTF8? bytes with
  | some text => .ok text
  | none => .error ((faultFrom 0 bytes.data.toList).getD (.incomplete bytes.size))

def scalarOf (lead : UInt8) (more : List UInt8) : Char :=
  let high := match more.length with
    | 0 => lead.toNat
    | 1 => lead.toNat % 32
    | 2 => lead.toNat % 16
    | _ => lead.toNat % 8
  Char.ofNat (more.foldl (fun v b => v * 64 + b.toNat % 64) high)

/-- Reads bytes as text, writing U+FFFD for each maximal bad piece. -/
def lossyChars : List UInt8 → List Char
  | [] => []
  | lead :: rest =>
    match step lead rest with
    | .scalar more => scalarOf lead (rest.take more) :: lossyChars (rest.drop more)
    | .broken more => '\uFFFD' :: lossyChars (rest.drop more)
    | .cut => ['\uFFFD']
termination_by bytes => bytes.length
decreasing_by all_goals (simp only [List.length_drop, List.length_cons]; omega)

def decodeLossy (bytes : ByteArray) : String :=
  match String.fromUTF8? bytes with
  | some text => text
  | none => String.ofList (lossyChars bytes.data.toList)

end RemoteCall.Utf8
