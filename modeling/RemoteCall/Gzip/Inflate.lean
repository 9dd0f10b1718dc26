import RemoteCall.Data.Words

/-! Inflation of a deflate stream, with a bound on the size of the result.

A stream is a sequence of blocks. A block holds its bytes as they are, or as literals and copies of
earlier bytes in canonical prefix codes. Positions are counted in bits, least significant bit of a
byte first. -/
namespace RemoteCall.Inflate

inductive Fault where
  /-- The stream ends early or breaks the format. -/
  | corrupt
  /-- The result would pass the bound. -/
  | tooLarge
deriving DecidableEq, Repr

abbrev Outcome := Except Fault

variable (source : ByteArray)

def bit (pos : Nat) : Outcome (Nat × Nat) :=
  if h : pos / 8 < source.size then
    .ok ((source[pos / 8].toNat >>> (pos % 8)) % 2, pos + 1)
  else .error .corrupt

/-- A number of `count` bits, least significant bit first. -/
def number : (count pos : Nat) → Outcome (Nat × Nat)
  | 0, pos => .ok (0, pos)
  | count + 1, pos => do
    let (low, pos) ← bit source pos
    let (high, pos) ← number count pos
    pure (low + 2 * high, pos)

/-- A canonical prefix code: how many symbols have each length (from 1), and the symbols in the
order of their codes. -/
structure PrefixCode where
  counts : List Nat
  symbols : Array Nat

def maxLength : Nat := 15

def PrefixCode.ofLengths (lengths : List Nat) : PrefixCode where
  counts := (List.range maxLength).map fun i => lengths.count (i + 1)
  symbols := ((List.range maxLength).flatMap fun i =>
    (lengths.zipIdx.filter fun e => e.1 == i + 1).map (·.2)).toArray

/-- The share of the code space in use, out of `2 ^ maxLength`. -/
def PrefixCode.space (code : PrefixCode) : Nat :=
  code.counts.foldl (fun total n => total * 2 + n) 0

def PrefixCode.isComplete (code : PrefixCode) : Bool := code.space == 1 <<< maxLength

/-- A code of at most one symbol need not use the whole code space. -/
def PrefixCode.isUsable (code : PrefixCode) : Bool :=
  code.isComplete || code.symbols.size ≤ 1

/-- Reads bits until they are the code of a symbol. `value` is what was read so far, `first` the
first code of the present length and `index` the place of its symbol. -/
def PrefixCode.read (symbols : Array Nat) : (counts : List Nat) →
    (value first index pos : Nat) → Outcome (Nat × Nat)
  | [], _, _, _, _ => .error .corrupt
  | n :: counts, value, first, index, pos => do
    let (b, pos) ← bit source pos
    let value := value + b
    if value < first + n then
      match symbols[index + (value - first)]? with
      | some s => pure (s, pos)
      | none => .error .corrupt
    else read symbols counts (2 * value) (2 * (first + n)) (index + n) pos

def PrefixCode.symbol (code : PrefixCode) (pos : Nat) : Outcome (Nat × Nat) :=
  PrefixCode.read source code.symbols code.counts 0 0 0 pos

/-- Base and count of extra bits of the copy lengths, from symbol 257. -/
def lengthTable : Array (Nat × Nat) := #[
  (3, 0), (4, 0), (5, 0), (6, 0), (7, 0), (8, 0), (9, 0), (10, 0), (11, 1), (13, 1), (15, 1),
  (17, 1), (19, 2), (23, 2), (27, 2), (31, 2), (35, 3), (43, 3), (51, 3), (59, 3), (67, 4),
  (83, 4), (99, 4), (115, 4), (131, 5), (163, 5), (195, 5), (227, 5), (258, 0)]

def distanceTable : Array (Nat × Nat) := #[
  (1, 0), (2, 0), (3, 0), (4, 0), (5, 1), (7, 1), (9, 2), (13, 2), (17, 3), (25, 3), (33, 4),
  (49, 4), (65, 5), (97, 5), (129, 6), (193, 6), (257, 7), (385, 7), (513, 8), (769, 8),
  (1025, 9), (1537, 9), (2049, 10), (3073, 10), (4097, 11), (6145, 11), (8193, 12), (12289, 12),
  (16385, 13), (24577, 13)]

def tableNumber (table : Array (Nat × Nat)) (symbol pos : Nat) : Outcome (Nat × Nat) :=
  match table[symbol]? with
  | none => .error .corrupt
  | some (base, extra) => do
    let (more, pos) ← number source extra pos
    pure (base + more, pos)

variable (limit : Nat)

/-- Adds one byte to the result unless that passes the bound. -/
def emit (out : ByteArray) (b : UInt8) : Outcome ByteArray :=
  if out.size < limit then .ok (out.push b) else .error .tooLarge

/-- Repeats the bytes that begin `distance` before the end of the result. -/
def copy (distance : Nat) : (length : Nat) → (out : ByteArray) → Outcome ByteArray
  | 0, out => .ok out
  | length + 1, out => do
    let out ← emit limit out (byteAt out (out.size - distance))
    copy distance length out

def codedBytes (literals distances : PrefixCode) :
    (fuel : Nat) → (out : ByteArray) → (pos : Nat) → Outcome (ByteArray × Nat)
  | 0, _, _ => .error .corrupt
  | fuel + 1, out, pos => do
    let (symbol, pos) ← literals.symbol source pos
    if symbol < 256 then
      codedBytes literals distances fuel (← emit limit out (UInt8.ofNat symbol)) pos
    else if symbol == 256 then pure (out, pos)
    else
      let (length, pos) ← tableNumber source lengthTable (symbol - 257) pos
      let (symbol, pos) ← distances.symbol source pos
      let (distance, pos) ← tableNumber source distanceTable symbol pos
      if distance ≤ out.size then
        codedBytes literals distances fuel (← copy limit distance length out) pos
      else .error .corrupt

def plainBytes : (count : Nat) → (out : ByteArray) → (at_ : Nat) → Outcome (ByteArray × Nat)
  | 0, out, at_ => .ok (out, 8 * at_)
  | count + 1, out, at_ => do
    let out ← if h : at_ < source.size then emit limit out source[at_] else .error .corrupt
    plainBytes count out (at_ + 1)

/-- A block of plain bytes gives its size twice, the second time with all bits turned. -/
def plainBlock (out : ByteArray) (pos : Nat) : Outcome (ByteArray × Nat) := do
  let (size, pos) ← number source 16 ((pos + 7) / 8 * 8)
  let (turned, pos) ← number source 16 pos
  if size + turned == 65535 then plainBytes source limit size out (pos / 8)
  else .error .corrupt

def fixedLiterals : PrefixCode := .ofLengths <|
  List.replicate 144 8 ++ List.replicate 112 9 ++ List.replicate 24 7 ++ List.replicate 8 8

def fixedDistances : PrefixCode := .ofLengths (List.replicate 32 5)

/-- The order in which the lengths of the code for lengths are listed. -/
def lengthOrder : List Nat := [16, 17, 18, 0, 8, 7, 9, 6, 10, 5, 11, 4, 12, 3, 13, 2, 14, 1, 15]

def threeBitNumbers : (count pos : Nat) → Outcome (List Nat × Nat)
  | 0, pos => .ok ([], pos)
  | count + 1, pos => do
    let (n, pos) ← number source 3 pos
    let (rest, pos) ← threeBitNumbers count pos
    pure (n :: rest, pos)

/-- Reads code lengths until there are `total` of them; `lengths` holds the last one first. A symbol
above 15 repeats the last length or zero, and must not pass the total. -/
def codeLengths (code : PrefixCode) (total : Nat) :
    (fuel : Nat) → (lengths : List Nat) → (pos : Nat) → Outcome (List Nat × Nat)
  | 0, _, _ => .error .corrupt
  | fuel + 1, lengths, pos =>
    if total < lengths.length then .error .corrupt
    else if lengths.length == total then .ok (lengths.reverse, pos)
    else do
      let (symbol, pos) ← code.symbol source pos
      match symbol, lengths with
      | 16, [] => .error .corrupt
      | 16, last :: _ =>
        let (n, pos) ← number source 2 pos
        codeLengths code total fuel (List.replicate (n + 3) last ++ lengths) pos
      | 17, _ =>
        let (n, pos) ← number source 3 pos
        codeLengths code total fuel (List.replicate (n + 3) 0 ++ lengths) pos
      | 18, _ =>
        let (n, pos) ← number source 7 pos
        codeLengths code total fuel (List.replicate (n + 11) 0 ++ lengths) pos
      | length, _ => codeLengths code total fuel (length :: lengths) pos

def ownCodes (pos : Nat) : Outcome ((PrefixCode × PrefixCode) × Nat) := do
  let (n, pos) ← number source 5 pos
  let (m, pos) ← number source 5 pos
  let (k, pos) ← number source 4 pos
  let literalCount := n + 257
  let distanceCount := m + 1
  if 286 < literalCount || 30 < distanceCount then .error .corrupt
  let (listed, pos) ← threeBitNumbers source (k + 4) pos
  let code := PrefixCode.ofLengths <| (List.range 19).map fun s =>
    ((lengthOrder.zip listed).lookup s).getD 0
  if !code.isComplete then .error .corrupt
  let total := literalCount + distanceCount
  let (lengths, pos) ← codeLengths source code total (total + 1) [] pos
  let literals := PrefixCode.ofLengths (lengths.take literalCount)
  let distances := PrefixCode.ofLengths (lengths.drop literalCount)
  if literals.isUsable && distances.isUsable then pure ((literals, distances), pos)
  else .error .corrupt

/-- One more symbol than the stream has bits: a symbol takes at least one bit. -/
def symbolFuel : Nat := 8 * source.size + 1

def block (kind : Nat) (out : ByteArray) (pos : Nat) : Outcome (ByteArray × Nat) :=
  match kind with
  | 0 => plainBlock source limit out pos
  | 1 => codedBytes source limit fixedLiterals fixedDistances (symbolFuel source) out pos
  | 2 => do
    let ((literals, distances), pos) ← ownCodes source pos
    codedBytes source limit literals distances (symbolFuel source) out pos
  | _ => .error .corrupt

def blocks : (fuel : Nat) → (out : ByteArray) → (pos : Nat) → Outcome (ByteArray × Nat)
  | 0, _, _ => .error .corrupt
  | fuel + 1, out, pos => do
    let (last, pos) ← bit source pos
    let (kind, pos) ← number source 2 pos
    let (out, pos) ← block source limit kind out pos
    if last == 1 then pure (out, pos) else blocks fuel out pos

/-- Inflates the stream that begins at a byte position. The second half of the result is the
position of the byte after the stream. -/
def inflate (start : Nat) : Outcome (ByteArray × Nat) := do
  let (out, pos) ← blocks source limit (symbolFuel source) ByteArray.empty (8 * start)
  pure (out, (pos + 7) / 8)

end RemoteCall.Inflate
