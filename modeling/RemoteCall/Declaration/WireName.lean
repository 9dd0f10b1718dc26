import RemoteCall.Text.Uppercase

/-! The name under which a method travels: `get_by_id` is sent as `GetById`. -/
namespace RemoteCall.Declaration

def capitalize : List Char → List Char
  | [] => []
  | c :: rest => Uppercase.upper c ++ rest

/-- The words between underscores; empty ones are left out. -/
def words (name : List Char) : List (List Char) :=
  (name.splitOn '_').filter fun w => !w.isEmpty

/-- The words of a name, each capitalized, written together. -/
def wireName (name : String) : String :=
  .ofList ((words name.toList).flatMap capitalize)

end RemoteCall.Declaration
