import RemoteCall.Context.Basic
import RemoteCall.Context.Cancellation

/-! Named contexts over time that moves only on demand.

The wall clock stands still in between; only the monotonic clock decides when a context finishes. -/
namespace RemoteCall.Context

/-- A context with its name, and whether its deadline came over the wall clock. -/
structure Named where
  context : Context
  fromWire : Bool := false

structure Session where
  clock : Clock
  contexts : KeyMap Named := .empty
  scopes : Cancellation := {}
  /-- Scopes to be cancelled at a time. -/
  planned : List (Int × Nat) := []
deriving Inhabited

inductive Command where
  | make
  | timeout (span : Duration)
  | deadline (t : Int)
  | metadata (key value : String)
  | oneway
  | group (name : String)
  | child (copy : String)
  | clone (copy : String)
  | cancel
  | advance (span : Nat)
  | see
  /-- Drives work that takes a span, or forever, while another context is cancelled after a span. -/
  | run (work : Option Nat) (outcome : Result Unit) (cancel : Option (String × Nat))
  | done
  | apply (request : Request)
  /-- Takes over a request, after setting its deadline some nanoseconds from now. -/
  | receive (request : Request) (deadlineIn : Option Int)

inductive Extra where
  | none
  | finished (outcome : Result Unit) (elapsed : Nat)
  | applied (request : Request) (server : Context)

namespace Session

def isCancelled (s : Session) (c : Context) : Bool := s.scopes.isCancelled c.scope

def error? (s : Session) (c : Context) : Option Error := c.error? (s.isCancelled c) s.clock.mono

def moveTo (s : Session) (t : Int) : Session :=
  let due := s.planned.filter fun p => p.1 ≤ t
  { s with
    clock := { s.clock with mono := max s.clock.mono t }
    scopes := due.foldl (fun c p => c.cancel p.2) s.scopes
    planned := s.planned.filter fun p => ! decide (p.1 ≤ t) }

def put (s : Session) (name : String) (c : Context) (fromWire : Bool) : Session :=
  { s with contexts := s.contexts.insert name ⟨c, fromWire⟩ }

def cancelTime (s : Session) (c : Context) : Option Int :=
  (s.planned.filter fun p => (s.scopes.cancel p.2).isCancelled c.scope).foldl
    (fun best p => some (match best with
      | some t => min t p.1
      | none => p.1)) none

def drive (s : Session) (c : Context) (work : Option (Int × Result Unit)) : Session × Extra :=
  match c.run s.clock.mono (s.isCancelled c) (s.cancelTime c) work with
  | some (t, outcome) => (s.moveTo t, .finished outcome (t - s.clock.mono).toNat)
  | none => (s, .none)

def newScope (s : Session) (parent : Option Nat) : Nat × Session :=
  let (scope, scopes) := s.scopes.add parent
  (scope, { s with scopes })

/-- Carries out a command on the context of a name; yields the name whose context it is about. -/
def perform (s : Session) (name : String) (command : Command) : Session × String × Extra :=
  let known := (s.contexts.get? name).getD ⟨{}, false⟩
  let c := known.context
  let keep (c : Context) := (s.put name c known.fromWire, name, Extra.none)
  match command with
  | .make =>
    let (scope, s) := s.newScope none
    (s.put name { scope } false, name, .none)
  | .timeout span => keep (c.withTimeout s.clock.mono span)
  | .deadline t => keep (c.withDeadline t)
  | .metadata key value => keep (c.withMetadata key value)
  | .oneway => keep c.withOneway
  | .group g => keep (c.withGroup g)
  | .child copy =>
    let (scope, s) := s.newScope (some c.scope)
    (s.put copy { c with scope } known.fromWire, copy, .none)
  | .clone copy => (s.put copy c known.fromWire, copy, .none)
  | .cancel => ({ s with scopes := s.scopes.cancel c.scope }, name, .none)
  | .advance span => (s.moveTo (s.clock.mono + span), name, .none)
  | .see => (s, name, .none)
  | .run work outcome cancel =>
    let planned := (cancel.bind fun (other, span) =>
      (s.contexts.get? other).map fun o => (s.clock.mono + span, o.context.scope)).toList
    let s := { s with planned := s.planned ++ planned }
    let (s, extra) := s.drive c (work.map fun span => (s.clock.mono + span, outcome))
    (s, name, extra)
  | .done =>
    let (s, extra) := s.drive c none
    (s, name, extra)
  | .apply request =>
    match c.applyTo s.clock request with
    | some request => (s, name,
        .applied request (.ofRequest request s.clock s.scopes.parents.length))
    | none => (s, name, .none)
  | .receive request deadlineIn =>
    let request := match deadlineIn with
      | some span => request.setDeadline (s.clock.wall + span)
      | none => request
    let (scope, s) := s.newScope none
    (s.put name (.ofRequest request s.clock scope) true, name, .none)

end Session
end RemoteCall.Context
