import RemoteCall.Text.Blank
import RemoteCall.Payload.Document

/-! Spans of time.

In messages a span is one decimal number with a unit. In configuration files it is a sum of whole
numbers with units, such as `1h 30m`. -/
namespace RemoteCall

/-- Whole nanoseconds. The seconds fit 64 bits. -/
structure Duration where
  nanos : Nat
deriving DecidableEq, Repr, Inhabited

namespace Duration

def zero : Duration := ⟨0⟩

def ofMicros (n : Nat) : Duration := ⟨n * 1000⟩

def ofMillis (n : Nat) : Duration := ⟨n * 1000000⟩

def ofSecs (n : Nat) : Duration := ⟨n * 1000000000⟩

def isZero (d : Duration) : Bool := d.nanos == 0

def max : Duration := ⟨UInt64.size * 1000000000 - 1⟩

/-- `places` digits of a fraction, without zeros at the end, after a point unless none is left. -/
def fraction (places n : Nat) : List Char :=
  let ds := Nat.toDigits 10 n
  let padded := List.replicate (places - ds.length) '0' ++ ds
  match (padded.reverse.dropWhile (· == '0')).reverse with
  | [] => []
  | kept => '.' :: kept

/-- The unit is the largest of which the span holds at least one. -/
def decimalText (d : Duration) : String :=
  let write (places : Nat) (unit : String) :=
    let one := Nat.pow 10 places
    String.ofList (Nat.toDigits 10 (d.nanos / one) ++ fraction places (d.nanos % one)) ++ unit
  if 1000000000 ≤ d.nanos then write 9 "s"
  else if 1000000 ≤ d.nanos then write 6 "ms"
  else if 1000 ≤ d.nanos then write 3 "µs"
  else write 0 "ns"

def secondUnits : List (Nat × List String) := [
  (1, ["s", "sec", "secs", "second", "seconds"]),
  (60, ["m", "min", "mins", "minute", "minutes"]),
  (3600, ["h", "hr", "hour", "hours"]),
  (86400, ["d", "day", "days"]),
  (604800, ["w", "week", "weeks"]),
  (2630016, ["M", "month", "months"]),
  (31557600, ["y", "year", "years"])]

def nanoUnits : List (Nat × List String) := [
  (1, ["ns", "nsec", "nanos"]),
  (1000, ["us", "usec"]),
  (1000000, ["ms", "msec", "millis"])]

/-- Adds a number of units to whole seconds and nanoseconds. Both parts must fit 64 bits. -/
def addTerm (secs nanos n : Nat) (unit : String) : Option (Nat × Nat) := do
  let scale (table : List (Nat × List String)) : Nat :=
    ((table.find? fun e => e.2.contains unit).map (·.1)).getD 0
  let moreSecs := n * scale secondUnits
  let moreNanos := n * scale nanoUnits
  if scale secondUnits + scale nanoUnits == 0 then none
  if UInt64.size ≤ moreSecs || UInt64.size ≤ nanos + moreNanos then none
  let nanos := nanos + moreNanos
  let secs := secs + moreSecs + nanos / 1000000000
  if UInt64.size ≤ secs then none else some (secs, nanos % 1000000000)

/-- Numbers with units up to the end of the text, blanks allowed around them. The fuel is one more
than the number of characters. -/
def readTerms : (fuel secs nanos : Nat) → List Char → Option Duration
  | 0, _, _, _ => none
  | fuel + 1, secs, nanos, text => do
    let ds := text.takeWhile Char.isDigit
    let rest := (text.dropWhile Char.isDigit).dropWhile isBlank
    let unit := rest.takeWhile Char.isAlpha
    let rest := rest.dropWhile Char.isAlpha
    let n := ds.foldl (fun n c => n * 10 + (c.toNat - '0'.toNat)) 0
    if ds.isEmpty || UInt64.size ≤ n then none
    let (secs, nanos) ← addTerm secs nanos n (String.ofList unit)
    match rest.dropWhile isBlank with
    | [] => some ⟨secs * 1000000000 + nanos⟩
    | rest => readTerms fuel secs nanos rest

def ofText? (text : String) : Option Duration :=
  readTerms (text.length + 1) 0 0 (text.toList.dropWhile isBlank)

/-- Parts that are not zero, the largest unit first. -/
def unitsText (d : Duration) : String :=
  let secs := d.nanos / 1000000000
  let nanos := d.nanos % 1000000000
  let yearRest := secs % 31557600
  let monthRest := yearRest % 2630016
  let dayRest := monthRest % 86400
  let named (n : Nat) (unit : String) := (n, if n == 1 then unit else unit ++ "s")
  let parts := [
    named (secs / 31557600) "year", named (yearRest / 2630016) "month",
    named (monthRest / 86400) "day", (dayRest / 3600, "h"), (dayRest % 3600 / 60, "m"),
    (dayRest % 60, "s"), (nanos / 1000000, "ms"), (nanos / 1000 % 1000, "us"),
    (nanos % 1000, "ns")]
  match parts.filter fun p => p.1 != 0 with
  | [] => "0s"
  | shown => " ".intercalate (shown.map fun p => toString p.1 ++ p.2)

end Duration

instance : Encodable Duration := ⟨fun d => .ok (.text d.unitsText)⟩
instance : Decodable Duration := ⟨fun _ d => match d with
  | .text t => Duration.ofText? t
  | _ => none⟩

end RemoteCall
