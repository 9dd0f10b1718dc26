/-! Types as they stand in the declaration of a service. -/
namespace RemoteCall.Declaration

/-- A written type. A lifetime stands only among the arguments of a path segment. -/
inductive TypeExpr where
  /-- Segments in order, each a name with the arguments in angle brackets, if there are brackets. -/
  | path (segments : List (String × Option (List TypeExpr)))
  | reference (target : TypeExpr)
  | slice (element : TypeExpr)
  | tuple (elements : List TypeExpr)
  | lifetime (name : String)
deriving Inhabited

namespace TypeExpr

def named (name : String) : TypeExpr := .path [(name, none)]

mutual

def text : TypeExpr → String
  | path segments => segmentsText segments
  | reference target => "&" ++ target.text
  | slice element => "[" ++ element.text ++ "]"
  | tuple elements => "(" ++ elementsText elements ++ ")"
  | lifetime name => "'" ++ name

def segmentsText : List (String × Option (List TypeExpr)) → String
  | [] => ""
  | [s] => segmentText s
  | s :: rest => segmentText s ++ "::" ++ segmentsText rest

def segmentText : String × Option (List TypeExpr) → String
  | (name, none) => name
  | (name, some arguments) => name ++ "<" ++ argumentsText arguments ++ ">"

def argumentsText : List TypeExpr → String
  | [] => ""
  | [t] => t.text
  | t :: rest => t.text ++ "," ++ argumentsText rest

/-- Every element of a tuple is followed by a comma. -/
def elementsText : List TypeExpr → String
  | [] => ""
  | t :: rest => t.text ++ "," ++ elementsText rest

end

def isReference : TypeExpr → Bool
  | reference _ => true
  | _ => false

def lastName? : TypeExpr → Option String
  | path segments => segments.getLast?.map (·.1)
  | _ => none

/-- The one type argument of the last segment: neither a lifetime nor one of several. -/
def onlyArgument? : TypeExpr → Option TypeExpr
  | path segments =>
    match segments.getLast? with
    | some (_, some [lifetime _]) => none
    | some (_, some [t]) => some t
    | _ => none
  | _ => none

end TypeExpr
end RemoteCall.Declaration
