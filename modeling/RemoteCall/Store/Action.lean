import RemoteCall.Store.Basic

/-! Everything that happens to a store, as actions of which none is interrupted by another. -/
namespace RemoteCall.Store

def Outcome.map {α β : Type} (f : α → β) : Outcome α → Outcome β
  | answer r => .answer (r.map f)
  | crash => .crash

inductive Action where
  | pass (span : Nat)
  | grant (span : Duration)
  | keepAlive (lease : Nat)
  | revoke (lease : Nat)
  | put (key value : String) (lease : Option Nat)
  | delete (key : String)
  /-- Ends the leases whose time has come, the named ones first. -/
  | sweep (first : List Nat)
deriving DecidableEq

/-- The leases whose time has come, the named ones first. They have no order of their own, and a
sweep may come upon them in any. -/
def expiredFrom (s : Store) (first : List Nat) : List Nat :=
  first.filter (s.expired.contains ·) ++ s.expired.filter (!first.contains ·)

def sweepFrom (s : Store) (first : List Nat) : Store :=
  if s.broken then s else (s.expiredFrom first).foldl removeLease s

theorem expiredFrom_nil (s : Store) : s.expiredFrom [] = s.expired :=
  List.filter_eq_self.mpr fun _ _ => rfl

theorem sweepFrom_nil (s : Store) : s.sweepFrom [] = s.sweep := by
  rw [sweepFrom, expiredFrom_nil, sweep]

/-- What an action makes of a store, and how it is answered. Only a grant is answered with a lease.
-/
def act (s : Store) : Action → Store × Outcome (Option Nat)
  | .pass span => ({ s with now := s.now + span }, .answer (.ok none))
  | .grant span => ((s.grant span).1, (s.grant span).2.map some)
  | .keepAlive lease => ((s.keepAlive lease).1, (s.keepAlive lease).2.map fun _ => none)
  | .revoke lease => ((s.revoke lease).1, .answer ((s.revoke lease).2.map fun _ => none))
  | .put key value lease =>
    ((s.put key value lease).1, .answer ((s.put key value lease).2.map fun _ => none))
  | .delete key => ((s.delete key).1, .answer ((s.delete key).2.map fun _ => none))
  | .sweep first => (s.sweepFrom first, .answer (.ok none))

def new (now : Int) : Store := { now }

def step (s : Store) (a : Action) : Store := (s.act a).1

def run (s : Store) (actions : List Action) : Store := actions.foldl step s

/-- The action is answered, and not with a failure. -/
def Succeeds (s : Store) (a : Action) : Prop := ∃ lease, (s.act a).2 = .answer (.ok lease)

def IsExpired (s : Store) (lease : Nat) : Prop := ∃ l, s.lease? lease = some l ∧ l.expires ≤ s.now

def grants (s : Store) : List Action → List Nat
  | [] => []
  | a :: rest =>
    match (s.act a).2 with
    | .answer (.ok (some lease)) => lease :: (s.step a).grants rest
    | _ => (s.step a).grants rest

end RemoteCall.Store
