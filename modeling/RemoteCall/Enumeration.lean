/-! Enumerations whose values are written by name.

A configuration file, an error report and the call headers all refer to the values of a small
enumeration by their names. A type that lists its values and names them can be read back. -/
namespace RemoteCall

class Enumeration (α : Type) where
  values : List α
  name : α → String

namespace Enumeration
variable {α : Type} [Enumeration α]

/-- Names match exactly: neither case nor surrounding blanks are forgiven. -/
def ofName? (text : String) : Option α :=
  (values (α := α)).find? fun v => name v == text

def names (α : Type) [Enumeration α] : List String :=
  (values (α := α)).map name

end Enumeration
end RemoteCall
