/-! Binary floating-point numbers of 64 bits, by exact arithmetic.

A finite number is `mantissa * 2 ^ exponent`. Products, quotients and decimal readings are formed as
ratios and rounded once, to nearest, a tie going to the even mantissa. -/
namespace RemoteCall

/-- Sign bit, eleven exponent bits and 52 mantissa bits. -/
structure Binary64 where
  bits : UInt64
deriving DecidableEq, Repr, Inhabited

namespace Binary64

def signUnit : Nat := 0x8000000000000000

/-- What the lowest exponent bit counts for: the number of mantissas. -/
def exponentUnit : Nat := 0x10000000000000

def topExponent : Nat := 2047 * exponentUnit

def isNegative (x : Binary64) : Bool := signUnit ≤ x.bits.toNat

def magnitude (x : Binary64) : Nat := x.bits.toNat % signUnit

/-- Exponent bits all set: an infinity or no number. -/
def isFinite (x : Binary64) : Bool := x.magnitude < topExponent

def isZero (x : Binary64) : Bool := x.magnitude == 0

def negate (x : Binary64) : Binary64 := ⟨x.bits ^^^ 0x8000000000000000⟩

def infinity : Binary64 := ⟨0x7FF0000000000000⟩

def zero : Binary64 := ⟨0⟩

/-- Mantissa and the exponent of the lowest mantissa bit, of a finite magnitude. -/
def parts (x : Binary64) : Nat × Int :=
  let e : Nat := x.magnitude / exponentUnit
  let m : Nat := x.magnitude % exponentUnit
  if e == 0 then (m, -1074) else (m + exponentUnit, (e : Int) - 1075)

/-- `m * 2 ^ e` as numerator and denominator. -/
def scaled (m : Nat) (e : Int) : Nat × Nat :=
  if 0 ≤ e then (m <<< e.toNat, 1) else (m, 1 <<< (-e).toNat)

def ratio (x : Binary64) : Nat × Nat := scaled x.parts.1 x.parts.2

/-- Rounds a quotient to the nearest integer, a tie to the even one. -/
def roundQuotient (num den : Nat) : Nat :=
  let q := num / den
  let r := num % den
  if 2 * r < den then q
  else if den < 2 * r then q + 1
  else q + q % 2

/-- The number nearest to a ratio, infinity if that is past the largest one. -/
def ofRatio (num den : Nat) : Binary64 :=
  if num == 0 then zero
  else
    let estimate : Int := (num.log2 : Int) - den.log2
    let below : Bool :=
      if 0 ≤ estimate then num < den <<< estimate.toNat else num <<< (-estimate).toNat < den
    let e : Int := max ((if below then estimate - 1 else estimate) - 52) (-1074)
    let m := if 0 ≤ e then roundQuotient num (den <<< e.toNat)
      else roundQuotient (num <<< (-e).toNat) den
    -- a mantissa that rounds up to the next power of two carries into the exponent bits
    let bits := (e + 1074).toNat * exponentUnit + m
    if topExponent ≤ bits then infinity else ⟨UInt64.ofNat bits⟩

def ofNat (n : Nat) : Binary64 := ofRatio n 1

def mul (x y : Binary64) : Binary64 :=
  if x.isFinite && y.isFinite then ofRatio (x.ratio.1 * y.ratio.1) (x.ratio.2 * y.ratio.2)
  else infinity

def div (x y : Binary64) : Binary64 :=
  if x.isFinite then ofRatio (x.ratio.1 * y.ratio.2) (x.ratio.2 * y.ratio.1) else infinity

def pow10 (n : Nat) : Binary64 := ofNat (Nat.pow 10 n)

/-- Reads `significand * 10 ^ exponent` in steps: the significand is rounded first, then multiplied
or divided by a rounded power of ten. A result past the largest number is refused. -/
def ofDecimal? (significand : Nat) (exponent : Int) : Option Binary64 :=
  let f := ofNat significand
  if significand == 0 then some zero
  else if 0 ≤ exponent then
    let r := f.mul (pow10 exponent.toNat)
    if 308 < exponent || !r.isFinite then none else some r
  else
    let n := (-exponent).toNat
    if n ≤ 308 then some (f.div (pow10 n))
    else if n ≤ 616 then some ((f.div (pow10 308)).div (pow10 (n - 308)))
    else some zero

def ofBinary32 (bits : UInt32) : Binary64 :=
  let sign := bits.toNat >>> 31
  let e : Nat := (bits.toNat >>> 23) % 256
  let m : Nat := bits.toNat % 0x800000
  let x : Binary64 :=
    if e == 255 then ⟨UInt64.ofNat (topExponent + (m <<< 29))⟩
    else
      let (num, den) := if e == 0 then scaled m (-149) else scaled (m + 0x800000) ((e : Int) - 150)
      ofRatio num den
  if sign == 1 then x.negate else x

def digits (n : Nat) : List Char := Nat.toDigits 10 n

/-- The least `k` from `k` on with `num / den < 10 ^ k`. -/
def magnitude10 (num den : Nat) : (fuel : Nat) → (k : Int) → Int
  | 0, k => k
  | fuel + 1, k =>
    let (a, b) := if 0 ≤ k then (num, den * Nat.pow 10 k.toNat)
      else (num * Nat.pow 10 (-k).toNat, den)
    if a < b then k else magnitude10 num den fuel (k + 1)

/-- Tries grids of `n`, `n + 1`, … digits. The number is `num / den`; half the gap to its neighbours
is `low / den` below and `high / den` above, ends included when `closed`. Yields a decimal on the
first grid that has a point in between, the nearer one of two. -/
def shortestFrom (num den low high : Nat) (closed : Bool) (k : Int) :
    (fuel : Nat) → (n : Nat) → Nat × Int
  | 0, _ => (0, 0)
  | fuel + 1, n =>
    let e := k - n
    -- all quantities times `scale`, in units of the grid
    let (up, unit) := if 0 ≤ e then (1, den * Nat.pow 10 e.toNat) else (Nat.pow 10 (-e).toNat, den)
    let c := num * up / unit
    let below := num * up - c * unit
    let above := (c + 1) * unit - num * up
    let inBelow := if closed then below ≤ low * up else below < low * up
    let inAbove := if closed then above ≤ high * up else above < high * up
    if inBelow && (!inAbove || below < above || (below == above && c % 2 == 0)) then (c, e)
    else if inAbove then (c + 1, e)
    else shortestFrom num den low high closed k fuel (n + 1)

/-- The shortest decimal `d * 10 ^ e` that reads back as a positive finite number. -/
def shortest (x : Binary64) : Nat × Int :=
  let (m, q) := x.parts
  -- quarters of the lowest mantissa bit, so that half gaps are whole
  let (num, den) := scaled (4 * m) (q - 2)
  let (unit, _) := scaled 1 (q - 2)
  let low := if m == exponentUnit && -1074 < q then unit else 2 * unit
  shortestFrom num den low (2 * unit) (m % 2 == 0) (magnitude10 num den 700 (-330)) 20 1

/-- Digits without the zeros at the end, which go to the exponent. -/
def stripZeros : (fuel d : Nat) → (e : Int) → Nat × Int
  | 0, d, e => (d, e)
  | fuel + 1, d, e => if d % 10 == 0 then stripZeros fuel (d / 10) (e + 1) else (d, e)

/-- The text of a finite number: shortest digits, positional from 1e-5 up to below 1e16, and at
least one digit after the point of a positional number. -/
def text (x : Binary64) : String :=
  let sign := if x.isNegative then ['-'] else []
  let body :=
    if x.isZero then ['0', '.', '0']
    else
      let (d, e) := x.shortest
      let (d, e) := stripZeros 20 d e
      let ds := digits d
      let point : Int := ds.length + e
      if 0 ≤ e && point ≤ 16 then ds ++ List.replicate e.toNat '0' ++ ['.', '0']
      else if 0 < point && point ≤ 16 then ds.take point.toNat ++ '.' :: ds.drop point.toNat
      else if -5 < point && point ≤ 0 then
        ['0', '.'] ++ List.replicate (-point).toNat '0' ++ ds
      else
        ds.take 1 ++ (if ds.length == 1 then [] else '.' :: ds.drop 1) ++
          'e' :: (toString (point - 1)).toList
  String.ofList (sign ++ body)

end Binary64
end RemoteCall
