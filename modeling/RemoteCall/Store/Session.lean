import RemoteCall.Registry.Leased
import RemoteCall.Registry.Seen

/-! A store under named registries, watches and subscriptions, in time that moves only on demand.

Leases are swept at fixed times from the beginning on; the lease of an open registry is renewed
three times in its span. -/
namespace RemoteCall.Store

/-- What a listener hears: the changes themselves, or what they say about a service. -/
inductive News where
  | change (c : Change)
  | event (e : Event)
deriving DecidableEq, Repr, Inhabited

inductive Listener where
  | watch (w : Watch)
  | feed (f : Feed)
deriving Inhabited

namespace Listener

def cancel : Listener → Listener
  | watch w => .watch { w with cancelled := true }
  | feed f => .feed f.cancel

def cut (lease : Nat) : Listener → Listener
  | watch w => .watch w
  | feed f => .feed (if f.lease == lease then f.cut else f)

def hear (log : List Change) : Listener → Listener × List News × Bool
  | watch w =>
    let (notices, w) := w.drain log
    (.watch w, notices.map fun n => .change n.change, w.stopped)
  | feed f =>
    let f := f.drain log
    (.feed { f with received := [] },
      f.received.map fun n => .event (LeasedRegistry.event f.service n.change), f.ended)

end Listener

structure Member where
  registry : LeasedRegistry
  interval : Duration
  due : Int
deriving Inhabited

structure Session where
  store : Store := {}
  sweepAt : Int := Store.sweepInterval.nanos
  /-- The latest of a name stands first; older ones are still renewed. -/
  members : List (String × Member) := []
  listeners : List (String × Listener) := []
deriving Inhabited

namespace Session

/-! Requests to the store -/

def tell (s : Session) (f : Store → Store × Result Unit) : Session × Result Unit :=
  let (store, r) := f s.store
  ({ s with store }, r)

/-- A caller that gets no answer has none to report. -/
def ask {α : Type} (s : Session) (f : Store → Store × Outcome α) : Session × Option (Result α) :=
  match f s.store with
  | (store, .answer r) => ({ s with store }, some r)
  | (store, .crash) => ({ s with store }, none)

/-- Puts the numbers below `n` under keys that end in five digits; stops at the first refusal. -/
def putMany (s : Session) (start : String) (lease : Option Nat) (n : Nat) : Session × Result Unit :=
  let key (i : Nat) := start ++ "".pushn '0' (5 - (toString i).length) ++ toString i
  (List.range n).foldl (fun (s, r) i =>
    match r with
    | .ok () => s.tell fun st => st.put (key i) (toString i) lease
    | .error _ => (s, r)) (s, .ok ())

/-! Listeners -/

def forget (s : Session) (name : String) : Session :=
  { s with listeners := s.listeners.filter fun l => l.1 != name }

/-- Adds a listener; the former one of that name is dropped. -/
def listen (s : Session) (name : String) (l : Listener) : Session :=
  let s := s.forget name
  { s with listeners := s.listeners ++ [(name, l)] }

def watch (s : Session) (name scope : String) : Session :=
  s.listen name (.watch (.ofScope s.store scope))

def mapListeners (s : Session) (f : String → Listener → Listener) : Session :=
  { s with listeners := s.listeners.map fun (name, l) => (name, f name l) }

def cancel (s : Session) (name : String) : Session :=
  s.mapListeners fun n l => if n == name then l.cancel else l

/-! Registries -/

def establish (s : Session) (name : String) (span : Duration) : Session × Option (Result Nat) :=
  match s.ask fun st => LeasedRegistry.establish st span with
  | (s, some (.ok registry)) =>
    let interval := LeasedRegistry.renewInterval span
    let member : Member := { registry, interval, due := s.store.now + interval.nanos }
    ({ s with members := (name, member) :: s.members }, some (.ok registry.lease))
  | (s, some (.error e)) => (s, some (.error e))
  | (s, none) => (s, none)

def registry (s : Session) (name : String) : LeasedRegistry :=
  ((s.members.lookup name).map (·.registry)).getD { lease := 0, closed := true }

def subscribe (s : Session) (registry name service : String) : Session :=
  s.listen name (.feed ((s.registry registry).subscribe s.store service))

/-- Closes a registry. Its subscriptions end; what they had not passed on is lost. -/
def close (s : Session) (name : String) : Session × Result Unit :=
  let (registry, store, r) := (s.registry name).close s.store
  let s := s.mapListeners fun _ l => l.cut registry.lease
  ({ s with
      store
      members := s.members.map fun (n, m) =>
        (n, if m.registry.lease == registry.lease then { m with registry } else m) }, r)

/-! Time -/

def renewals (s : Session) : List Member :=
  (s.members.map (·.2)).filter fun m => !m.registry.closed

def nextTimer (s : Session) : Int :=
  (s.renewals.map fun m => Clock.timerTick m.due).foldl min s.sweepAt

/-- The first time after `now` at which a renewal is due. -/
def Member.following (m : Member) (now : Int) : Int :=
  m.due + ((now - m.due) / m.interval.nanos + 1) * m.interval.nanos

def fireSweep (s : Session) : Session :=
  if s.sweepAt ≤ s.store.now then
    { s with store := s.store.sweep, sweepAt := s.sweepAt + sweepInterval.nanos }
  else s

def fireRenewals (s : Session) : Session :=
  let due := s.renewals.filter fun m => m.due ≤ s.store.now
  { s with
    store := due.foldl (fun st m => (st.keepAlive m.registry.lease).1) s.store
    members := s.members.map fun (n, m) =>
      (n, if m.due ≤ s.store.now then { m with due := Member.following m s.store.now } else m) }

def setTime (s : Session) (t : Int) : Session := { s with store := { s.store with now := t } }

/-- Moves the time to an instant, from one timer to the next. Timers are at least a millisecond
apart, which bounds the rounds. -/
def moveTo (target : Int) : (fuel : Nat) → Session → Session
  | 0, s => s.setTime target
  | fuel + 1, s =>
    if target < s.nextTimer then s.setTime target
    else moveTo target fuel (s.setTime s.nextTimer).fireSweep.fireRenewals

def advance (s : Session) (span : Duration) : Session :=
  s.moveTo (s.store.now + span.nanos) (span.nanos / 1000000 + 1)

/-! Reports -/

def report (s : Session) : Session × Seen News :=
  (s.listeners.mergeSort fun a b => a.1 ≤ b.1).foldl (fun (s, seen) (name, l) =>
    let (l, heard, ended) := l.hear s.store.log
    let seen := seen.add name heard ended
    if ended then (s.forget name, seen)
    else (s.mapListeners fun n old => if n == name then l else old, seen)) (s, {})

end Session
end RemoteCall.Store
