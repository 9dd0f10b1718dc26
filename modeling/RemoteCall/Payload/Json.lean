import RemoteCall.Payload.JsonToken

/-! JSON text: reading it into a document and writing a document compactly.

Reading keeps no more state than the open lists and maps, so nesting is bounded only where a free
value is asked for. -/
namespace RemoteCall.Json

/-- A list or map that is still open, its items last one first. -/
inductive Frame where
  | list (items : List Document)
  | map (entries : List (Document × Document)) (key : Document)

inductive Want where
  | value
  | valueOrClose
  | key (entries : List (Document × Document))
  | keyOrClose
  | colon (entries : List (Document × Document)) (key : Document)
  | commaOrClose (last : Document)

/-- The open frames, innermost first, and what may come next inside them. -/
structure Reading where
  frames : List Frame
  want : Want

namespace Reading

def start : Reading := ⟨[], .value⟩

def put (frames : List Frame) (d : Document) : Reading := ⟨frames, .commaOrClose d⟩

def takeValue (frames : List Frame) : Token → Option Reading
  | .scalar d => some (put frames d)
  | .openList => some ⟨.list [] :: frames, .valueOrClose⟩
  | .openMap => some ⟨frames, .keyOrClose⟩
  | _ => none

def takeAfter (frames : List Frame) (last : Document) : Token → Option Reading
  | .comma =>
    match frames with
    | .list items :: outer => some ⟨.list (last :: items) :: outer, .value⟩
    | .map entries key :: outer => some ⟨outer, .key ((key, last) :: entries)⟩
    | [] => none
  | .closeList =>
    match frames with
    | .list items :: outer => some (put outer (.list (last :: items).reverse))
    | _ => none
  | .closeMap =>
    match frames with
    | .map entries key :: outer => some (put outer (.map ((key, last) :: entries).reverse))
    | _ => none
  | _ => none

def takeKey (frames : List Frame) (entries : List (Document × Document)) : Token → Option Reading
  | .scalar (.text t) => some ⟨frames, .colon entries (.text t)⟩
  | .scalar .badText => some ⟨frames, .colon entries .badText⟩
  | _ => none

def step (r : Reading) (t : Token) : Option Reading :=
  match r.want with
  | .value => takeValue r.frames t
  | .valueOrClose =>
    match t, r.frames with
    | .closeList, .list _ :: outer => some (put outer (.list []))
    | t, frames => takeValue frames t
  | .keyOrClose =>
    match t with
    | .closeMap => some (put r.frames (.map []))
    | t => takeKey r.frames [] t
  | .key entries => takeKey r.frames entries t
  | .colon entries key =>
    match t with
    | .colon => some ⟨.map entries key :: r.frames, .value⟩
    | _ => none
  | .commaOrClose last => takeAfter r.frames last t

def result? (r : Reading) : Option Document :=
  match r.frames, r.want with
  | [], .commaOrClose d => some d
  | _, _ => none

end Reading

def read? (bytes : ByteArray) : Option Document := do
  let ts ← tokens [] bytes.data.toList
  let r ← ts.foldlM Reading.step Reading.start
  r.result?

def escape (c : Char) : List Char :=
  match c with
  | '"' => ['\\', '"']
  | '\\' => ['\\', '\\']
  | '\n' => ['\\', 'n']
  | '\r' => ['\\', 'r']
  | '\t' => ['\\', 't']
  | '\x08' => ['\\', 'b']
  | '\x0c' => ['\\', 'f']
  | c =>
    if c.toNat < 0x20 then
      ['\\', 'u', '0', '0', Nat.digitChar (c.toNat / 16), Nat.digitChar (c.toNat % 16)]
    else [c]

def quote (t : String) : List Char := '"' :: t.toList.flatMap escape ++ ['"']

def commaSeparated : List (List Char) → List Char
  | [] => []
  | [item] => item
  | item :: rest => item ++ ',' :: commaSeparated rest

/-- A key is written as a text, a number as its digits. -/
def keyChars : Document → List Char
  | .text t => quote t
  | .nat n => quote (toString n)
  | .int i => quote (toString i)
  | _ => quote ""

mutual
def chars : Document → List Char
  | .bool true => "true".toList
  | .bool false => "false".toList
  | .nat n => Nat.toDigits 10 n
  | .int i => (toString i).toList
  | .float x => if x.isFinite then x.text.toList else "null".toList
  | .text t => quote t
  | .bytes b => '[' :: commaSeparated (b.data.toList.map fun x => Nat.toDigits 10 x.toNat) ++ [']']
  | .list items => '[' :: commaSeparated (listChars items) ++ [']']
  | .map entries => '{' :: commaSeparated (entriesChars entries) ++ ['}']
  | .null | .badText | .extension => "null".toList

def listChars : List Document → List (List Char)
  | [] => []
  | d :: rest => chars d :: listChars rest

def entriesChars : List (Document × Document) → List (List Char)
  | [] => []
  | (key, d) :: rest => (keyChars key ++ ':' :: chars d) :: entriesChars rest
end

/-- Compact text: no blanks between tokens. -/
def text (d : Document) : String := String.ofList (chars d)

def write (d : Document) : ByteArray := (text d).toUTF8

end RemoteCall.Json
