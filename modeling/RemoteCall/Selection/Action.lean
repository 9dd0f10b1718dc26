import RemoteCall.Selection.Selector

/-! What callers do with a selector while its ready set stays the same. -/
namespace RemoteCall.Selection

inductive Action where
  | pick (call : Call) (now : Int) (draw : Nat)
  | finish (pick : Pick) (failed : Bool) (now : Int)
deriving DecidableEq, Repr

def Action.call? : Action → Option Call
  | .pick call _ _ => some call
  | .finish .. => none

/-- No call fails or is abandoned. -/
def Action.succeeds : Action → Bool
  | .pick .. => true
  | .finish _ failed _ => !failed

/-- A call from its pick to its end. -/
structure Errand where
  call : Call
  picked : Int := 0
  draw : Nat := 0
  ended : Int := 0
deriving DecidableEq, Repr

namespace Selector

/-- A pick that finds nothing changes nothing. -/
def step (s : Selector) : Action → Selector
  | .pick call now draw => ((s.pick call now draw).toOption.map (·.1)).getD s
  | .finish pick failed now => s.finish pick failed now

def run (s : Selector) (actions : List Action) : Selector := actions.foldl step s

def picks (s : Selector) : List Action → List (Result Pick)
  | [] => []
  | .pick call now draw :: rest =>
    (s.pick call now draw).map (·.2) :: (s.step (.pick call now draw)).picks rest
  | .finish pick failed now :: rest => (s.step (.finish pick failed now)).picks rest

/-- Serves calls one after the other, each of which ends well before the next is picked for. -/
def serve (s : Selector) : List Errand → Selector × List (Result Pick)
  | [] => (s, [])
  | c :: rest =>
    match s.pick c.call c.picked c.draw with
    | .error e =>
      let (after, picks) := s.serve rest
      (after, .error e :: picks)
    | .ok (picked, p) =>
      let (after, picks) := (picked.finish p false c.ended).serve rest
      (after, .ok p :: picks)

end Selector
end RemoteCall.Selection
