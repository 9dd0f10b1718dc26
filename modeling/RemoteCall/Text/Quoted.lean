import RemoteCall.Text.Printable

/-! Quoted text inside messages, so that separators and invisible characters can be read. -/
namespace RemoteCall.Quoted

/-- The digits of a number in base sixteen, in lower case and without leading zeros. -/
def hexDigits (n : Nat) : List Char := Nat.toDigits 16 n

def escape (c : Char) : List Char :=
  match c with
  | '"' => ['\\', '"']
  | '\\' => ['\\', '\\']
  | '\n' => ['\\', 'n']
  | '\r' => ['\\', 'r']
  | '\t' => ['\\', 't']
  | '\x00' => ['\\', '0']
  | c =>
    if Printable.isPrintable c then [c]
    else ['\\', 'u', '{'] ++ hexDigits c.toNat ++ ['}']

def quote (text : String) : String :=
  String.ofList ('"' :: text.toList.flatMap escape ++ ['"'])

end RemoteCall.Quoted
