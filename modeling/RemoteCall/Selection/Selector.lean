import RemoteCall.Registry.Instance
import RemoteCall.Selection.Picker

/-! A changing set of endpoints under one policy of choice.

Endpoints are numbered as they are made and never forgotten, because calls that were sent to one may
end long after it has left the ready set. -/
namespace RemoteCall.Selection

structure Call where
  service : String
  method : String
  group : Option String := none
deriving DecidableEq, Repr, Inhabited

abbrev Filter := Call → Instance → Bool

/-- A call with a group goes to the instances of that group, one without goes anywhere. -/
def Filter.byGroup : Filter := fun call inst =>
  call.group.all fun g => inst.group == some g

structure Pick where
  choice : Choice
  generation : Nat
deriving DecidableEq, Repr, Inhabited

def Pick.endpoint (p : Pick) : Nat := p.choice.endpoint

structure Selector where
  mode : SelectMode
  filter : Option Filter := none
  endpoints : List Endpoint := []
  picker : Picker
  /-- How often the picker was replaced. -/
  generation : Nat := 0
deriving Inhabited

namespace Selector

def ofMode (mode : SelectMode) (filter : Option Filter) : Selector :=
  { mode, filter, picker := .ofReady mode (fun _ => 1) [] }

def endpoint (s : Selector) (e : Nat) : Endpoint := s.endpoints[e]?.getD default

def ready (s : Selector) : List Nat := s.picker.ready

def addresses (s : Selector) : List String := s.ready.map fun e => (s.endpoint e).inst.address

def rebuild (s : Selector) (ready : List Nat) : Selector :=
  { s with
    picker := .ofReady s.mode (fun e => (s.endpoint e).inst.effectiveWeight) ready
    generation := s.generation + 1 }

/-- Without a filter every instance may serve every call. -/
def admits (s : Selector) (call : Call) (e : Nat) : Bool :=
  s.filter.all fun f => f call (s.endpoint e).inst

def view (s : Selector) (call : Call) (now : Int) (draw : Nat) : Picker.View :=
  { endpoint := s.endpoint, admits := s.admits call, now, draw }

def modify (s : Selector) (e : Nat) (f : Endpoint → Endpoint) : Selector :=
  { s with endpoints := s.endpoints.modify e f }

def pick (s : Selector) (call : Call) (now : Int) (draw : Nat) : Result (Selector × Pick) := do
  let (picker, choice) ← s.picker.pick (s.view call now draw)
  let s := { s with picker }
  pure (match choice.notice with
    | .active e => s.modify e Endpoint.enter
    | _ => s, ⟨choice, s.generation⟩)

/-- The call of a pick has ended; one that was abandoned has failed. Effective weights belong to the
picker that made the pick: one that was replaced since is past caring. -/
def finish (s : Selector) (p : Pick) (failed : Bool) (now : Int) : Selector :=
  match p.choice.notice with
  | .none => s
  | .active e => s.modify e Endpoint.leave
  | .latency e start => s.modify e fun x => x.observe ((now - start) / 1000).toNat failed
  | .weight i =>
    match s.picker with
    | .weightedRoundRobin nodes =>
      if p.generation == s.generation then
        { s with picker := .weightedRoundRobin (nodes.modify i (Rotation.settle failed)) }
      else s
    | _ => s

/-- The addresses that draws can choose for a call, each once and in order. -/
def reachable (s : Selector) (call : Call) : List String :=
  (((s.picker.support (s.view call 0 0)).map fun e =>
    (s.endpoint e).inst.address).eraseDups).mergeSort

end Selector
end RemoteCall.Selection
