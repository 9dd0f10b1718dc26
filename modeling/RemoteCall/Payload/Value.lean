import RemoteCall.Payload.Document

/-! Free values: anything JSON can hold, for callers without a type of their own.

The entries of a map are kept in key order, and of two entries with one key the later one stands. -/
namespace RemoteCall

inductive Value where
  | null
  | bool (b : Bool)
  | int (i : Int)
  | float (x : Binary64)
  | text (t : String)
  | list (items : List Value)
  | map (entries : List (String × Value))
deriving Inhabited

namespace Value

mutual
/-- Reads a free value of at most `depth` levels of lists and maps. -/
def ofDocument? (depth : Nat) : Document → Option Value
  | .null => some .null
  | .bool b => some (.bool b)
  | .nat n => some (.int n)
  | .int i => some (.int i)
  | .float x => some (if x.isFinite then .float x else .null)
  | .text t => some (.text t)
  | .badText | .bytes _ | .extension => none
  | .list items =>
    match depth with
    | 0 => none
    | depth + 1 => (listOf? depth items).map .list
  | .map entries =>
    match depth with
    | 0 => none
    | depth + 1 => (entriesOf? depth entries).map fun es => .map (KeyMap.ofList es).entries

def listOf? (depth : Nat) : List Document → Option (List Value)
  | [] => some []
  | d :: rest => do
    let v ← ofDocument? depth d
    let vs ← listOf? depth rest
    pure (v :: vs)

def entriesOf? (depth : Nat) : List (Document × Document) → Option (List (String × Value))
  | [] => some []
  | (.text key, d) :: rest => do
    let v ← ofDocument? depth d
    let vs ← entriesOf? depth rest
    pure ((key, v) :: vs)
  | _ :: _ => none
end

mutual
def toDocument : Value → Document
  | .null => .null
  | .bool b => .bool b
  | .int i => .ofInt i
  | .float x => .float x
  | .text t => .text t
  | .list items => .list (listToDocuments items)
  | .map entries => .map (entriesToDocuments entries)

def listToDocuments : List Value → List Document
  | [] => []
  | v :: rest => v.toDocument :: listToDocuments rest

def entriesToDocuments : List (String × Value) → List (Document × Document)
  | [] => []
  | (key, v) :: rest => (.text key, v.toDocument) :: entriesToDocuments rest
end

mutual
def depth : Value → Nat
  | .list items => listDepth items + 1
  | .map entries => entriesDepth entries + 1
  | _ => 0

def listDepth : List Value → Nat
  | [] => 0
  | v :: rest => max v.depth (listDepth rest)

def entriesDepth : List (String × Value) → Nat
  | [] => 0
  | (_, v) :: rest => max v.depth (entriesDepth rest)
end

def record (fields : List (String × Value)) : Value := .map (KeyMap.ofList fields).entries

end Value

instance : Encodable Value := ⟨fun v => .ok v.toDocument⟩
instance : Decodable Value := ⟨Value.ofDocument?⟩

end RemoteCall
