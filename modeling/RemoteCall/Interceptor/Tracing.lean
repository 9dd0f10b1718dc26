import RemoteCall.Interceptor.Basic

/-! Interceptors described by data: they leave a trail, change the request, retry, answer or
recover. -/
namespace RemoteCall

inductive Trail where
  | before (name method : String)
  | after (name : String) (ok : Bool)
  | handled (method : String) (metadata : Metadata) (group : Option String)

/-- An interceptor as data. A response is made for the request at hand. -/
structure Tracer where
  name : String
  metadata : Option (String × String) := none
  method : Option String := none
  fail : Option Error := none
  answer : Option (Request → Response) := none
  /-- How often the next handler is tried at most. -/
  times : Nat := 1
  recover : Option (Request → Response) := none

namespace Tracer
variable {m : Type → Type} [Monad m]

/-- Calls until one succeeds; without a call there is nothing to say. -/
def attempts (next : m (Result Response)) : Nat → Result Response → m (Result Response)
  | 0, last => pure last
  | n + 1, _ => do
    match ← next with
    | .ok r => pure (.ok r)
    | .error e => attempts next n (.error e)

def adjust (t : Tracer) (r : Request) : Request :=
  let r := match t.metadata with
    | some (key, value) => r.withMetadata key value
    | none => r
  match t.method with
  | some method => { r with method }.withLengths
  | none => r

/-- The handler in front of the next one; `note` adds to the trail. -/
def interceptor (t : Tracer) (note : Trail → m Unit) : Interceptor m :=
  fun next context request => do
  note (.before t.name request.method)
  let request := t.adjust request
  match t.fail, t.answer with
  | some e, _ => pure (.error e)
  | none, some answer => pure (.ok (answer request))
  | none, none =>
    let outcome ← attempts (next context request) t.times (.error (.ofKind .other))
    let outcome := match outcome, t.recover with
      | .error _, some recover => .ok (recover request)
      | outcome, _ => outcome
    note (.after t.name outcome.isOk)
    pure outcome

end Tracer

def stage {m : Type → Type} [Monad m] (note : Trail → m Unit) : Option Tracer → Interceptor m
  | some t => t.interceptor note
  | none => watching

/-- A handler that fails its first calls, all of them without a number, and then answers. -/
structure Scripted where
  error : Option Error := none
  failures : Option Nat := none
  answer : Request → Response

structure Scripted.Run where
  trail : List Trail := []
  calls : Nat := 0

def Scripted.handler (s : Scripted) : Handler (StateM Scripted.Run) := fun context request => do
  let run ← get
  set { run with
    trail := run.trail ++ [Trail.handled request.method request.metadata context.group]
    calls := run.calls + 1 }
  pure <| match s.error with
    | some e => if (s.failures.elim true fun n => run.calls < n) then .error
        e else .ok (s.answer request)
    | none => .ok (s.answer request)

def Scripted.call (s : Scripted) (stages : List (Option Tracer)) (context : Context)
    (request : Request) : Result Response × List Trail :=
  let note (t : Trail) : StateM Scripted.Run Unit := modify fun run =>
    { run with trail := run.trail ++ [t] }
  let (outcome, run) := (chain (stages.map (stage note)) s.handler context request).run {}
  (outcome, run.trail)

end RemoteCall
