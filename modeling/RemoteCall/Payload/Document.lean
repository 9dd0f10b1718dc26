import RemoteCall.Data.KeyMap
import RemoteCall.Number.Binary64

/-! Self-describing documents, the common ground of the payload formats.

A format reads bytes into a document and writes a document to bytes; a type of arguments says how it
stands in a document and how it is found there. -/
namespace RemoteCall

/-- What a payload can hold. Whole numbers keep whether they were written without a sign, because
only such a number can stand for a field. -/
inductive Document where
  | null
  | bool (b : Bool)
  | nat (n : Nat)
  | int (i : Int)
  | float (x : Binary64)
  | text (t : String)
  /-- A text whose characters cannot be told. -/
  | badText
  | bytes (b : ByteArray)
  | list (items : List Document)
  | map (entries : List (Document × Document))
  /-- A value of a type that only its users know. -/
  | extension
deriving Inhabited

namespace Document

def record (fields : List (String × Document)) : Document :=
  .map (fields.map fun f => (.text f.1, f.2))

def ofInt (i : Int) : Document := if i < 0 then .int i else .nat i.toNat

def int? : Document → Option Int
  | .nat n => some n
  | .int i => some i
  | _ => none

/-- A whole number from 0 up to below `2 ^ width`. -/
def nat? (width : Nat) (d : Document) : Option Nat := do
  let i ← d.int?
  if 0 ≤ i ∧ i.toNat < 1 <<< width then some i.toNat else none

/-- A text; bytes count as the text they write. -/
def text? : Document → Option String
  | .text t => some t
  | .bytes b => String.fromUTF8? b
  | _ => none

def bool? : Document → Option Bool
  | .bool b => some b
  | _ => none

/-- A list; bytes count as a list of numbers. -/
def list? : Document → Option (List Document)
  | .list items => some items
  | .bytes b => some (b.data.toList.map fun x => .nat x.toNat)
  | _ => none

/-- Absent when null, else read. -/
def option? {α : Type} (read : Document → Option α) : Document → Option (Option α)
  | .null => some none
  | d => (read d).map some

inductive Key where
  | field (index : Nat)
  | unknown
  | wrong
deriving DecidableEq

/-- A field is named, by text or bytes, or numbered. -/
def keyOf (names : List String) : Document → Key
  | .text t => (names.idxOf? t).elim .unknown .field
  | .bytes b => ((String.fromUTF8? b).bind names.idxOf?).elim .unknown .field
  | .nat n => if n < names.length then .field n else .unknown
  | _ => .wrong

/-- Puts the value of each entry in the place of its field. Unknown entries are passed over; a field
that comes twice is refused. -/
def placeFields (names : List String) :
    List (Document × Document) → List (Option Document) → Option (List (Option Document))
  | [], found => some found
  | (key, value) :: rest, found =>
    match keyOf names key with
    | .wrong => none
    | .unknown => placeFields names rest found
    | .field i =>
      match found[i]? with
      | some none => placeFields names rest (found.set i (some value))
      | _ => none

/-- The fields of a record, in the order of their names: from a map, or from a list of their values,
which may be short but not long. -/
def fields? (names : List String) : Document → Option (List (Option Document))
  | .map entries => placeFields names entries (List.replicate names.length none)
  | .list items =>
    if items.length ≤ names.length then
      some (items.map some ++ List.replicate (names.length - items.length) none)
    else none
  | _ => none

end Document

/-- A type of values that can be written into a payload, or that say why they cannot. -/
class Encodable (α : Type) where
  toDocument : α → Except String Document

/-- A type of values that can be read from a payload. A format bounds the levels of lists and maps
that a free value may have. -/
class Decodable (α : Type) where
  ofDocument? : (levels : Nat) → Document → Option α

namespace Decodable

def required {α : Type} [Decodable α] (levels : Nat) (found : Option Document) : Option α :=
  found.bind (ofDocument? levels)

/-- A field that keeps its default when it is not there. -/
def withDefault {α : Type} [Decodable α] (levels : Nat) (default : α) (found : Option Document) :
    Option α :=
  match found with
  | none => some default
  | some d => ofDocument? levels d

end Decodable

instance : Encodable Bool := ⟨fun b => .ok (.bool b)⟩
instance : Encodable Nat := ⟨fun n => .ok (.nat n)⟩
instance : Encodable UInt32 := ⟨fun n => .ok (.nat n.toNat)⟩
instance : Encodable UInt64 := ⟨fun n => .ok (.nat n.toNat)⟩
instance : Encodable String := ⟨fun t => .ok (.text t)⟩
instance {α : Type} [Encodable α] : Encodable (Option α) :=
  ⟨fun o => match o with
    | none => .ok .null
    | some a => Encodable.toDocument a⟩
instance {α : Type} [Encodable α] : Encodable (List α) :=
  ⟨fun items => .list <$> items.mapM Encodable.toDocument⟩

instance : Decodable Bool := ⟨fun _ => Document.bool?⟩
instance : Decodable UInt32 := ⟨fun _ d => (d.nat? 32).map UInt32.ofNat⟩
instance : Decodable UInt64 := ⟨fun _ d => (d.nat? 64).map UInt64.ofNat⟩
instance : Decodable String := ⟨fun _ => Document.text?⟩
instance {α : Type} [Decodable α] : Decodable (Option α) :=
  ⟨fun levels => Document.option? (Decodable.ofDocument? levels)⟩
instance {α : Type} [Decodable α] : Decodable (List α) :=
  ⟨fun levels d => d.list?.bind fun items => items.mapM (Decodable.ofDocument? levels)⟩

def Encodable.record (fields : List (String × Except String Document)) :
    Except String Document := do
  pure (.record (← fields.mapM fun (name, value) => do pure (name, ← value)))

end RemoteCall
