import RemoteCall.Text.Blank

/-! Receivers and argument bindings of a declared method, as they are written. -/
namespace RemoteCall.Declaration

/-- The receiver of a method. Only a shared borrow can serve many calls at once. -/
inductive Receiver where
  | shared
  /-- Owned, mutable, or with a type of its own. -/
  | other
deriving DecidableEq, Repr, Inhabited

/-- What an argument is bound to: a plain name, or a pattern that takes the value apart. -/
inductive Binding where
  | plain (name : String)
  | pattern
deriving DecidableEq, Repr, Inhabited

/-- Letters, digits, underscores and all that is not ASCII. -/
def isNameChar (c : Char) : Bool := c.isAlphanum || c == '_' || 128 ≤ c.toNat

def skipBlank (cs : List Char) : List Char := cs.dropWhile isBlank

/-- A borrow may name its lifetime. -/
def skipLifetime : List Char → List Char
  | '\'' :: rest => skipBlank (rest.dropWhile isNameChar)
  | cs => cs

/-- A shared borrow is written `&self`. -/
def Receiver.ofText (t : String) : Receiver :=
  match skipBlank t.toList with
  | '&' :: rest =>
    let name := skipLifetime (skipBlank rest)
    if name.takeWhile isNameChar == ['s', 'e', 'l', 'f'] && (skipBlank (name.drop 4)).isEmpty then
      .shared
    else .other
  | _ => .other

/-- The words of a pattern that are no names. -/
def reservedWords : List (List Char) :=
  ["_", "ref", "mut", "true", "false"].map String.toList

/-- A name starts with no digit and may be marked raw by `r#`. -/
def isName (cs : List Char) : Bool :=
  let cs := match cs with
    | 'r' :: '#' :: rest => rest
    | cs => cs
  !cs.isEmpty && cs.all isNameChar && !(cs.headD ' ').isDigit && !reservedWords.contains cs

/-- A plain binding is a name; it may be marked mutable. -/
def Binding.ofText (t : String) : Binding :=
  match (t.toList.splitOnP isBlank).filter (!·.isEmpty) with
  | [name] | [['m', 'u', 't'], name] => if isName name then .plain (.ofList name) else .pattern
  | _ => .pattern

end RemoteCall.Declaration
