/-! What named listeners have received since the last look. -/
namespace RemoteCall

structure Seen (α : Type) where
  /-- Only those that received something. -/
  events : List (String × List α) := []
  /-- Those to whom nothing more will come, each named once. -/
  ended : List String := []

namespace Seen
variable {α : Type}

/-- Adds what one listener received, and whether that was the end. -/
def add (s : Seen α) (name : String) (received : List α) (ended : Bool) : Seen α where
  events := if received.isEmpty then s.events else s.events ++ [(name, received)]
  ended := if ended then s.ended ++ [name] else s.ended

end Seen
end RemoteCall
