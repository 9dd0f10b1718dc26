/-! Addresses of peers: an IP address of version 4 or 6, and the same with a number after it.

Version 6 is written with the longest run of zero groups left out; of equally long runs the first.
-/
namespace RemoteCall

inductive IpAddress where
  /-- Four numbers below 256. -/
  | v4 (octets : List Nat)
  /-- Eight numbers below 65536. -/
  | v6 (groups : List Nat)
deriving DecidableEq, Repr, Inhabited

namespace IpAddress

def joined (separator : String) (parts : List String) : String := separator.intercalate parts

def zeroRun (groups : List Nat) : Nat := (groups.takeWhile (· == 0)).length

/-- Where the longest run of zero groups begins, and its length. -/
def longestRun : List Nat → Nat × Nat
  | [] => (0, 0)
  | g :: rest =>
    let (start, length) := longestRun rest
    let here := zeroRun (g :: rest)
    if length ≤ here then (0, here) else (start + 1, length)

def groupText (g : Nat) : String := String.ofList (Nat.toDigits 16 g)

/-- Groups with a run of at least two zeros left out. -/
def groupsText (groups : List Nat) : String :=
  let (start, length) := longestRun groups
  if length < 2 then joined ":" (groups.map groupText)
  else joined ":" ((groups.take start).map groupText) ++ "::" ++
    joined ":" ((groups.drop (start + length)).map groupText)

def octetsText (octets : List Nat) : String := joined "." (octets.map fun n => toString n)

/-- An address of version 4 inside version 6 is written as one. -/
def text : IpAddress → String
  | v4 octets => octetsText octets
  | v6 [0, 0, 0, 0, 0, 0xffff, a, b] =>
    "::ffff:" ++ octetsText [a / 256, a % 256, b / 256, b % 256]
  | v6 groups => groupsText groups

/-- A number in a base: digits only, at least one, and at most so many. -/
def number? (base most : Nat) (cs : List Char) : Option Nat :=
  let digit (c : Char) : Option Nat :=
    let d := if c.isDigit then c.toNat - 48 else if 'a' ≤ c && c ≤ 'f' then c.toNat - 87
      else if 'A' ≤ c && c ≤ 'F' then c.toNat - 55 else base
    if d < base then some d else none
  if cs.isEmpty || most < cs.length then none
  else (cs.mapM digit).map fun ds => ds.foldl (fun n d => n * base + d) 0

/-- The pieces between separators; there is always one more than there are separators. -/
def pieces (separator : Char) : List Char → List (List Char)
  | [] => [[]]
  | c :: rest =>
    match pieces separator rest with
    | [] => [[c]]
    | first :: more => if c == separator then [] :: first :: more else (c :: first) :: more

/-- A number below 256 without needless zeros. -/
def octet? (cs : List Char) : Option Nat :=
  if cs.length > 1 && cs.head? == some '0' then none
  else (number? 10 3 cs).filter (· < 256)

def octets? (cs : List Char) : Option (List Nat) :=
  match pieces '.' cs with
  | [a, b, c, d] => [a, b, c, d].mapM octet?
  | _ => none

/-- Groups between colons; the last may be an address of version 4, which makes two. -/
def groups? : List (List Char) → Option (List Nat)
  | [] => some []
  | [last] =>
    match octets? last with
    | some [a, b, c, d] => some [a * 256 + b, c * 256 + d]
    | _ => (number? 16 4 last).map fun g => [g]
  | g :: rest => do pure ((← number? 16 4 g) :: (← groups? rest))

def groupsOf? (cs : List Char) : Option (List Nat) :=
  if cs.isEmpty then some [] else groups? (pieces ':' cs)

def doubleColon? : List Char → Option (List Char × List Char)
  | ':' :: ':' :: rest => some ([], rest)
  | c :: rest => (doubleColon? rest).map fun (a, b) => (c :: a, b)
  | [] => none

/-- A double colon stands for at least one zero group. Before it there is no address of version 4.
-/
def v6? (cs : List Char) : Option IpAddress :=
  match doubleColon? cs with
  | none => (groupsOf? cs).bind fun g => if g.length == 8 then some (v6 g) else none
  | some (before, after) => do
    let head ← groupsOf? before
    let tail ← groupsOf? after
    if 7 < head.length + tail.length || before.contains '.' then none
    else pure (v6 (head ++ List.replicate (8 - head.length - tail.length) 0 ++ tail))

def ofText? (text : String) : Option IpAddress :=
  match octets? text.toList with
  | some octets => some (v4 octets)
  | none => v6? text.toList

/-- Reaches the machine itself, on some or on every interface. -/
def isLocal : IpAddress → Bool
  | v4 octets => octets.head? == some 127 || octets.all (· == 0)
  | v6 groups => groups.take 7 == List.replicate 7 0 && groups.getLast?.all (· ≤ 1)

end IpAddress

/-- An address with the number that tells its users apart. -/
structure PeerAddress where
  ip : IpAddress
  number : Nat
deriving DecidableEq, Repr, Inhabited

namespace PeerAddress

def text (a : PeerAddress) : String :=
  match a.ip with
  | .v4 _ => a.ip.text ++ ":" ++ toString a.number
  | .v6 _ => "[" ++ a.ip.text ++ "]:" ++ toString a.number

/-- The text before the last colon and the text after it. -/
def split? (cs : List Char) : Option (List Char × List Char) :=
  let after := cs.reverse.takeWhile (· != ':')
  match cs.reverse.dropWhile (· != ':') with
  | [] => none
  | _ :: before => some (before.reverse, after.reverse)

/-- Version 6 stands in brackets. -/
def ofText? (text : String) : Option PeerAddress := do
  let (host, number) ← split? text.toList
  let number ← (IpAddress.number? 10 number.length number).filter (· < 65536)
  match host with
  | '[' :: rest =>
    if rest.getLast? == some ']' then pure ⟨← IpAddress.v6? rest.dropLast, number⟩ else none
  | _ => pure ⟨.v4 (← IpAddress.octets? host), number⟩

end PeerAddress
end RemoteCall
