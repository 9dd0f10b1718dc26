import RemoteCall.Registry.Shared

/-! A store that registries share, in time.

Timers go off exactly when they are due: one sweeps the store, and one of each open registry renews
its lease. Time does not pass a timer that is due. Those that are due at the same time go off in any
order, with anything else between them. -/
namespace RemoteCall

structure Renewal where
  span : Duration
  /-- When it is renewed next. -/
  due : Int
deriving DecidableEq, Repr

namespace Renewal

def interval (x : Renewal) : Duration := LeasedRegistry.renewInterval x.span

def again (x : Renewal) : Renewal := { x with due := x.due + x.interval.nanos }

end Renewal

structure TimedStore where
  shared : SharedStore
  /-- When the store is swept next. -/
  sweepDue : Int
  /-- By the numbers of the registries. -/
  renewals : List Renewal := []

namespace TimedStore

inductive Action where
  /-- The lease of the registry with this number is renewed because it is due. -/
  | renew (r : Nat)
  | shared (a : SharedStore.Action)
deriving DecidableEq

def store (s : TimedStore) : Store := s.shared.store

def now (s : TimedStore) : Int := s.store.now

/-- A store that nobody uses yet. Both kinds of timers go off for the first time when they begin. -/
def new (start : Int) : TimedStore := { shared := { store := { now := start } }, sweepDue := start }

def renewal? (s : TimedStore) (r : Nat) : Option (LeasedRegistry × Renewal) :=
  match s.shared.registries[r]?, s.renewals[r]? with
  | some registry, some x => if registry.closed then none else some (registry, x)
  | _, _ => none

def isFreeUntil (s : TimedStore) (t : Int) : Bool :=
  t ≤ s.sweepDue &&
    (List.range s.renewals.length).all fun r => (s.renewal? r).all fun p => t ≤ p.2.due

/-- What an action does now. A timer does nothing unless it is due, and time does not pass one that
is. -/
def does? (s : TimedStore) : Action → Option SharedStore.Action
  | .renew r =>
    match s.renewal? r with
    | some (registry, x) => if x.due = s.now then some (.keepAlive registry.lease) else none
    | none => none
  | .shared (.pass span) => if s.isFreeUntil (s.now + span) then some (.pass span) else none
  | .shared .sweep => if s.sweepDue = s.now then some .sweep else none
  | .shared a => some a

def sweepDueAfter (s : TimedStore) : Action → Int
  | .shared .sweep => s.sweepDue + Store.sweepInterval.nanos
  | _ => s.sweepDue

/-- How leases are renewed after an action that was done. A registry that was established begins at
once. -/
def renewalsAfter (s : TimedStore) (shared : SharedStore) : Action → List Renewal
  | .renew r => s.renewals.modify r Renewal.again
  | .shared (.establish span) =>
    if s.shared.registries.length < shared.registries.length then s.renewals ++
      [⟨span, s.now⟩] else s.renewals
  | _ => s.renewals

def step (s : TimedStore) (a : Action) : TimedStore :=
  match s.does? a with
  | some b =>
    let shared := s.shared.step b
    { shared, sweepDue := s.sweepDueAfter a, renewals := s.renewalsAfter shared a }
  | none => s

def run (s : TimedStore) (actions : List Action) : TimedStore := actions.foldl step s

end TimedStore
end RemoteCall
