import RemoteCall.Selection.Selector

/-! A selector under named picks, in time that moves only on demand. -/
namespace RemoteCall.Selection

structure Session where
  selector : Selector
  now : Int := 0
  draws : Draws := {}
  held : List (String × Pick) := []
deriving Inhabited

namespace Session

def address (s : Session) (p : Pick) : String := (s.selector.endpoint p.endpoint).inst.address

def finish (s : Session) (p : Pick) (failed : Bool) : Session :=
  { s with selector := s.selector.finish p failed s.now }

def pick (s : Session) (call : Call) : Result (Session × Pick) := do
  let (draw, draws) := s.draws.next
  let (selector, p) ← s.selector.pick call s.now draw
  pure ({ s with selector, draws }, p)

def drop (s : Session) (name : String) (failed : Bool) : Session :=
  match s.held.lookup name with
  | some p => { s with held := s.held.filter fun h => h.1 != name }.finish p failed
  | none => s

/-- Keeps a pick under a name; the former pick of that name is abandoned. -/
def keep (s : Session) (name : String) (p : Pick) : Session :=
  let s := s.drop name true
  { s with held := (name, p) :: s.held }

/-- Several choices, each call ended before the next; stops at the first that fails. -/
def pickMany (s : Session) (call : Call) (failed : Bool) : Nat → Session × List (Result String)
  | 0 => (s, [])
  | n + 1 =>
    match s.pick call with
    | .error e => (s, [.error e])
    | .ok (s, p) =>
      let (after, rest) := (s.finish p failed).pickMany call failed n
      (after, .ok (s.address p) :: rest)

end Session
end RemoteCall.Selection
