import RemoteCall.Payload.Document

/-! The tokens of JSON text. -/
namespace RemoteCall.Json

inductive Token where
  | openList
  | closeList
  | openMap
  | closeMap
  | comma
  | colon
  | scalar (d : Document)
deriving Inhabited

/-- What a text is made of between its quotes: bytes, and units given by number. -/
inductive Piece where
  | byte (b : UInt8)
  | unit (u : Nat)

def isBlank (b : UInt8) : Bool := b == 0x20 || b == 0x09 || b == 0x0A || b == 0x0D

def isDigit (b : UInt8) : Bool := 0x30 ≤ b && b ≤ 0x39

def hexValue? (b : UInt8) : Option Nat :=
  if isDigit b then some (b.toNat - 0x30)
  else if 0x61 ≤ b && b ≤ 0x66 then some (b.toNat - 0x61 + 10)
  else if 0x41 ≤ b && b ≤ 0x46 then some (b.toNat - 0x41 + 10)
  else none

def unit? (a b c d : UInt8) : Option Nat := do
  pure (((← hexValue? a) * 16 + (← hexValue? b)) * 256 + ((← hexValue? c) * 16 + (← hexValue? d)))

def escaped? (letter : UInt8) : Option UInt8 :=
  match Char.ofNat letter.toNat with
  | '"' => some 0x22
  | '\\' => some 0x5C
  | '/' => some 0x2F
  | 'b' => some 0x08
  | 'f' => some 0x0C
  | 'n' => some 0x0A
  | 'r' => some 0x0D
  | 't' => some 0x09
  | _ => none

/-- Pieces up to the closing quote, the last one first, and what follows the quote. Control
characters must be escaped. -/
def readPieces (pieces : List Piece) : List UInt8 → Option (List Piece × List UInt8)
  | [] => none
  | 0x22 :: rest => some (pieces, rest)
  | 0x5C :: 0x75 :: a :: b :: c :: d :: rest =>
    match unit? a b c d with
    | some u => readPieces (.unit u :: pieces) rest
    | none => none
  | 0x5C :: letter :: rest =>
    match escaped? letter with
    | some b => readPieces (.byte b :: pieces) rest
    | none => none
  | b :: rest => if b < 0x20 || b == 0x5C then none else readPieces (.byte b :: pieces) rest

theorem length_readPieces {pieces result : List Piece} {bytes rest : List UInt8}
    (h : readPieces pieces bytes = some (result, rest)) : rest.length < bytes.length := by
  fun_induction readPieces pieces bytes with
  | case1 => cases h
  | case2 => cases h; simp
  | case3 _ _ _ _ _ _ _ _ ih => have := ih h; simp only [List.length_cons]; omega
  | case4 => cases h
  | case5 _ _ _ _ _ _ ih => have := ih h; simp only [List.length_cons]; omega
  | case6 => cases h
  | case7 => cases h
  | case8 _ _ _ _ _ _ _ ih => have := ih h; simp only [List.length_cons]; omega

def scalarBytes (n : Nat) : List UInt8 := (String.singleton (Char.ofNat n)).toUTF8.data.toList

/-- Joins the units of a pair; a high unit without a low one after it, and a low one without a high
one before it, is no character. The pieces come last one first, and bytes are added in front. -/
def joinPieces : List Piece → List UInt8 → Option (List UInt8)
  | [], bytes => some bytes
  | .byte b :: rest, bytes => joinPieces rest (b :: bytes)
  | .unit low :: rest, bytes =>
    if low < 0xD800 || 0xE000 ≤ low then joinPieces rest (scalarBytes low ++ bytes)
    else if low < 0xDC00 then none
    else match rest with
      | .unit high :: rest =>
        if 0xD800 ≤ high && high < 0xDC00 then
          joinPieces rest (scalarBytes (0x10000 + (high - 0xD800) * 1024 + (low - 0xDC00)) ++ bytes)
        else none
      | _ => none

def textOf (pieces : List Piece) : Document :=
  match (joinPieces pieces []).bind fun bytes => String.fromUTF8? bytes.toByteArray with
  | some t => .text t
  | none => .badText

def inNumber (b : UInt8) : Bool :=
  isDigit b || b == 0x2B || b == 0x2D || b == 0x2E || b == 0x45 || b == 0x65

/-- Digits as a significand that stays below `2 ^ 64`; digits that do not fit are left out. Yields
the significand, how many digits it took, and how many were left out. -/
def takeDigits : (significand taken : Nat) → List UInt8 → Nat × Nat × Nat
  | s, taken, [] => (s, taken, 0)
  | s, taken, b :: rest =>
    let next := s * 10 + (b.toNat - 0x30)
    if next < UInt64.size then takeDigits next (taken + 1) rest else (s, taken, rest.length + 1)

structure Numeral where
  negative : Bool
  whole : List UInt8
  fraction : Option (List UInt8)
  exponent : Option (Bool × List UInt8)

/-- Cuts a number. Digits must stand where the grammar wants one, and a leading zero stands alone.
-/
def numeral? (bytes : List UInt8) : Option Numeral := do
  let (negative, rest) := match bytes with
    | 0x2D :: rest => (true, rest)
    | all => (false, all)
  let whole := rest.takeWhile isDigit
  let rest := rest.dropWhile isDigit
  if whole.isEmpty || (whole.head? == some 0x30 && 1 < whole.length) then none
  let (fraction, rest) ← match rest with
    | 0x2E :: rest =>
      let ds := rest.takeWhile isDigit
      if ds.isEmpty then none else some (some ds, rest.dropWhile isDigit)
    | all => some (none, all)
  let exponent ← match rest with
    | [] => some none
    | e :: rest =>
      if e == 0x65 || e == 0x45 then
        let (down, ds) := match rest with
          | 0x2D :: ds => (true, ds)
          | 0x2B :: ds => (false, ds)
          | ds => (false, ds)
        if !ds.isEmpty && ds.all isDigit then some (some (down, ds)) else none
      else none
  pure { negative, whole, fraction, exponent }

/-- A number past the largest one is refused where it is used, but may be passed over. -/
def Numeral.float? (n : Numeral) : Option Binary64 :=
  let (s, _, dropped) := takeDigits 0 0 n.whole
  -- once a digit has been left out, no later one counts
  let (s, taken) := match n.fraction with
    | some ds =>
      if dropped == 0 then
        let (s, taken, _) := takeDigits s 0 ds
        (s, taken)
      else (s, 0)
    | none => (s, 0)
  let exponent : Int := match n.exponent with
    | none => 0
    | some (down, ds) =>
      let e : Nat := ds.foldl (fun e b => min (e * 10 + (b.toNat - 0x30)) 1000000000) 0
      if down then -(e : Int) else e
  (Binary64.ofDecimal? s (exponent + Int.ofNat dropped - Int.ofNat taken)).map fun x =>
    if n.negative then x.negate else x

/-- Whole numbers stay exact while they fit 64 bits; minus zero is no whole number. -/
def Numeral.document (n : Numeral) : Document :=
  let value := n.whole.foldl (fun v b => v * 10 + (b.toNat - 0x30)) 0
  let isWhole := n.fraction.isNone && n.exponent.isNone
  if isWhole && !n.negative && value < UInt64.size then .nat value
  else if isWhole && n.negative && 0 < value && 2 * value ≤ UInt64.size then .int (-(value : Int))
  else match n.float? with
    | some x => .float x
    | none => .extension

def word? (bytes : List UInt8) : Option (Document × List UInt8) :=
  match bytes with
  | 0x6E :: 0x75 :: 0x6C :: 0x6C :: rest => some (.null, rest)
  | 0x74 :: 0x72 :: 0x75 :: 0x65 :: rest => some (.bool true, rest)
  | 0x66 :: 0x61 :: 0x6C :: 0x73 :: 0x65 :: rest => some (.bool false, rest)
  | _ => none

theorem length_word? {bytes rest : List UInt8} {d : Document} (h : word? bytes = some (d, rest)) :
    rest.length < bytes.length := by
  unfold word? at h
  split at h <;> cases h <;> simp <;> omega

theorem length_dropWhile_le (p : UInt8 → Bool) (l : List UInt8) :
    (l.dropWhile p).length ≤ l.length := (List.dropWhile_suffix p).length_le

/-- The tokens of a text; `done` holds those before it, the last one first. -/
def tokens (done : List Token) (bytes : List UInt8) : Option (List Token) :=
  match bytes with
  | [] => some done.reverse
  | b :: rest =>
    if isBlank b then tokens done rest
    else if b == 0x5B then tokens (.openList :: done) rest
    else if b == 0x5D then tokens (.closeList :: done) rest
    else if b == 0x7B then tokens (.openMap :: done) rest
    else if b == 0x7D then tokens (.closeMap :: done) rest
    else if b == 0x2C then tokens (.comma :: done) rest
    else if b == 0x3A then tokens (.colon :: done) rest
    else if b == 0x22 then
      match _h : readPieces [] rest with
      | some (pieces, rest) => tokens (.scalar (textOf pieces) :: done) rest
      | none => none
    else if isDigit b || b == 0x2D then
      match numeral? (b :: rest.takeWhile inNumber) with
      | some n => tokens (.scalar n.document :: done) (rest.dropWhile inNumber)
      | none => none
    else
      match _h : word? (b :: rest) with
      | some (d, rest) => tokens (.scalar d :: done) rest
      | none => none
termination_by bytes.length
decreasing_by
  all_goals first
    | exact Nat.lt_succ_of_lt (length_readPieces (by assumption))
    | exact Nat.lt_succ_of_le (length_dropWhile_le _ _)
    | exact length_word? (by assumption)
    | exact Nat.lt_succ_self _

end RemoteCall.Json
