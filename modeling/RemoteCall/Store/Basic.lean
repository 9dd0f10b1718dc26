import RemoteCall.Context.Clock
import RemoteCall.Data.KeyMap
import RemoteCall.Duration
import RemoteCall.Error

/-! A store of texts under ordered keys, with leases that keys can be attached to.

A key that is attached to a lease is there only as long as the lease is kept alive. Every change is
written to a log, from which watches learn of it. -/
namespace RemoteCall

namespace Store

inductive Change where
  | put (key value : String)
  | delete (key : String)
deriving DecidableEq, Repr, Inhabited

def Change.key : Change → String
  | put key _ | delete key => key

structure Entry where
  value : String
  lease : Option Nat := none
deriving DecidableEq, Repr, Inhabited

structure Lease where
  span : Duration
  expires : Int
deriving DecidableEq, Repr, Inhabited

inductive Outcome (α : Type) where
  | answer (r : Result α)
  /-- The caller ends without an answer. -/
  | crash
deriving Inhabited

end Store

structure Store where
  now : Int := 0
  entries : KeyMap Store.Entry := .empty
  /-- By number, in the order in which they were granted. -/
  leases : List (Nat × Store.Lease) := []
  /-- How many leases were ever granted. -/
  granted : Nat := 0
  /-- All changes, the oldest first. -/
  log : List Store.Change := []
  /-- A caller ended in the midst of a change; nothing can be asked any more. -/
  broken : Bool := false
deriving Inhabited

namespace Store

def brokenError : Error := ⟨.registry, "memory store poisoned"⟩

def noLease (lease : Nat) : Error := ⟨.registry, s!"lease {lease} not found"⟩

def lease? (s : Store) (lease : Nat) : Option Lease := s.leases.lookup lease

def publish (s : Store) (c : Change) : Store := { s with log := s.log ++ [c] }

/-- Grants a lease for a span. An expiry that no clock can hold breaks the store. -/
def grant (s : Store) (span : Duration) : Store × Outcome Nat :=
  if span.isZero then (s, .answer (.error ⟨.config, "lease ttl must be positive"⟩))
  else if s.broken then (s, .answer (.error brokenError))
  else
    let lease := s.granted + 1
    match Clock.later? s.now span.nanos with
    | some expires =>
      ({ s with granted := lease, leases := s.leases ++ [(lease, ⟨span, expires⟩)] },
       .answer (.ok lease))
    | none => ({ s with granted := lease, broken := true }, .crash)

/-- Renews a lease for another of its spans, from now on. -/
def keepAlive (s : Store) (lease : Nat) : Store × Outcome Unit :=
  if s.broken then (s, .answer (.error brokenError))
  else match s.lease? lease with
    | none => (s, .answer (.error (noLease lease)))
    | some l =>
      match Clock.later? s.now l.span.nanos with
      | some expires =>
        ({ s with leases := s.leases.map fun e =>
          if e.1 == lease then (lease, { l with expires }) else e },
         .answer (.ok ()))
      | none => ({ s with broken := true }, .crash)

def removeKey (s : Store) (key : String) : Store :=
  { s with entries := s.entries.erase key }.publish (.delete key)

def attached (s : Store) (lease : Nat) : List String :=
  (s.entries.filter fun _ e => e.lease == some lease).keys

/-- Ends a lease; its keys go with it, in key order. -/
def removeLease (s : Store) (lease : Nat) : Store :=
  (s.attached lease).foldl removeKey { s with leases := s.leases.filter fun e => e.1 != lease }

def revoke (s : Store) (lease : Nat) : Store × Result Unit :=
  if s.broken then (s, .error brokenError)
  else if (s.lease? lease).isNone then (s, .error (noLease lease))
  else (s.removeLease lease, .ok ())

/-- Sets a key. A lease that it is to be attached to must be alive. -/
def put (s : Store) (key value : String) (lease : Option Nat) : Store × Result Unit :=
  if s.broken then (s, .error brokenError)
  else match lease.filter fun l => (s.lease? l).isNone with
    | some l => (s, .error (noLease l))
    | none =>
      ({ s with entries := s.entries.insert key { value, lease } }.publish (.put key value), .ok ())

def delete (s : Store) (key : String) : Store × Result Unit :=
  if s.broken then (s, .error brokenError)
  else (if s.entries.contains key then s.removeKey key else s, .ok ())

def startsWith (text start : String) : Bool := start.toList.isPrefixOf text.toList

/-- The entries from `start` on, up to the first that does not begin with it. -/
def scanFrom (start : String) (entries : List (String × Entry)) : List (String × Entry) :=
  (entries.dropWhile fun e => e.1 < start).takeWhile fun e => startsWith e.1 start

def scan (s : Store) (start : String) : Result (List (String × String)) :=
  if s.broken then .error brokenError
  else .ok ((scanFrom start s.entries.entries).map fun e => (e.1, e.2.value))

def expired (s : Store) : List Nat :=
  (s.leases.filter fun e => e.2.expires ≤ s.now).map (·.1)

def sweep (s : Store) : Store :=
  if s.broken then s else s.expired.foldl removeLease s

def sweepInterval : Duration := .ofMillis 100

end Store
end RemoteCall
