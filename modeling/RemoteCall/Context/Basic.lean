import RemoteCall.Context.Clock
import RemoteCall.Duration
import RemoteCall.Message.Request

/-! The context of a call: a deadline, a cancellation scope, and what travels with the request.

Deadlines are kept on the monotonic clock and travel as times of the wall clock. -/
namespace RemoteCall

structure Context where
  /-- A time of the monotonic clock. -/
  deadline : Option Int := none
  /-- The cancellation scope. Copies of a context share it. -/
  scope : Nat := 0
  metadata : Metadata := .empty
  oneway : Bool := false
  group : Option String := none
deriving DecidableEq, Inhabited

namespace Context

/-- Shortens the deadline; an earlier one stays. -/
def withDeadline (c : Context) (t : Int) : Context :=
  { c with deadline := some (match c.deadline with
    | some current => if current < t then current else t
    | none => t) }

/-- A span that leads past the clock leaves the deadline as it is. -/
def withTimeout (c : Context) (now : Int) (span : Duration) : Context :=
  match Clock.later? now span.nanos with
  | some t => c.withDeadline t
  | none => c

def withMetadata (c : Context) (key value : String) : Context :=
  { c with metadata := c.metadata.insert key value }

def withOneway (c : Context) : Context := { c with oneway := true }

def withGroup (c : Context) (group : String) : Context := { c with group := some group }

def canceledError : Error := ⟨.canceled, "context canceled"⟩

def deadlineError : Error := ⟨.timeout, "context deadline exceeded"⟩

def isExpired (c : Context) (now : Int) : Bool :=
  match c.deadline with
  | some t => t ≤ now
  | none => false

/-- Why the context is finished, if it is. Cancellation comes before the deadline. -/
def error? (c : Context) (cancelled : Bool) (now : Int) : Option Error :=
  if cancelled then some canceledError
  else if c.isExpired now then some deadlineError
  else none

/-- When the context finishes, and why, if it is to be cancelled at a known time. -/
def finish? (c : Context) (cancelAt : Option Int) : Option (Int × Error) :=
  match cancelAt, c.deadline with
  | none, none => none
  | some t, none => some (t, canceledError)
  | none, some t => some (t, deadlineError)
  | some t, some d => if t ≤ d then some (t, canceledError) else some (d, deadlineError)

/-- Drives work that ends at a known time until it ends or the context finishes. Yields the outcome
and its time, or nothing if neither ever comes. A finished context does not begin the work, and wins
when both come at once. -/
def run {α : Type} (c : Context) (now : Int) (cancelled : Bool) (cancelAt : Option Int)
    (work : Option (Int × Result α)) : Option (Int × Result α) :=
  match c.error? cancelled now with
  | some e => some (now, .error e)
  | none =>
    match c.finish? cancelAt, work with
    | none, work => work
    | some (t, e), none => some (t, .error e)
    | some (t, e), some (w, r) => if t ≤ w then some (t, .error e) else some (w, r)

/-- Puts metadata, one-way mark, group and deadline on an outgoing request. There is no outcome when
the deadline has no place on the wall clock. -/
def applyTo (c : Context) (clock : Clock) (r : Request) : Option Request :=
  let metadata := r.metadata.overlay c.metadata
  let metadata := if c.oneway then metadata.insert onewayKey "true" else metadata
  let metadata := match c.group with
    | some g => metadata.insert groupKey g
    | none => metadata
  let r := { r with metadata }
  match c.deadline with
  | none => some r.withLengths
  | some t => (Clock.later? clock.wall (Clock.spanUntil clock.mono t)).map fun wall =>
      (r.setDeadline wall).withLengths

/-- The context of an incoming request, in a scope of its own. -/
def ofRequest (r : Request) (clock : Clock) (scope : Nat) : Context where
  deadline := r.deadlineMillis.bind fun ms =>
    Clock.later? clock.mono (Clock.spanUntil clock.wall (ms * 1000000))
  scope
  metadata := r.metadata
  oneway := r.isOneway
  group := r.metadata.get? groupKey

end Context
end RemoteCall
