import RemoteCall.Store.Basic

/-! Watches: who learns of which changes of a store.

A watch follows the log of the store from where it began. The store keeps only the latest changes
for watches: one that falls further behind loses the oldest of them. -/
namespace RemoteCall.Store

/-- How many changes the store keeps for a watch that is behind. -/
def logCapacity : Nat := 1024

def queueCapacity : Nat := 64

structure Notice where
  place : Nat
  change : Change
deriving DecidableEq, Repr, Inhabited

structure Watch where
  /-- Changes of keys that begin with this text are passed on. -/
  scope : String
  /-- The place in the log of the next change to look at. -/
  next : Nat
  /-- A change that is to be passed on but found no room. -/
  inHand : Option Notice := none
  /-- Changes passed on and not yet received, the oldest first. -/
  queue : List Notice := []
  cancelled : Bool := false
  /-- Nothing more will be passed on. -/
  stopped : Bool := false
deriving DecidableEq, Repr, Inhabited

namespace Watch

def ofScope (s : Store) (scope : String) : Watch := { scope, next := s.log.length }

/-- The place in the log up to which changes are lost. -/
def oldestKept (log : List Change) : Nat := log.length - logCapacity

/-- Looks at the next change of the log. If it is no longer kept, the watch only finds out what is.
-/
def look (log : List Change) (w : Watch) : Watch :=
  if w.next < oldestKept log then { w with next := oldestKept log }
  else match log[w.next]? with
    | none => w
    | some c =>
      { w with
        next := w.next + 1
        inHand := if startsWith c.key w.scope then some ⟨w.next, c⟩ else none }

/-- The watch goes on: it passes on what is in hand, once there is room, or else looks further. -/
def proceed (log : List Change) (w : Watch) : Watch :=
  if w.stopped then w
  else match w.inHand with
    | some n =>
      if w.queue.length < queueCapacity
        then { w with inHand := none, queue := w.queue ++ [n] } else w
    | none => w.look log

/-- With nothing in hand the watch may find that it is cancelled. -/
def heed (w : Watch) : Watch :=
  if w.cancelled && w.inHand.isNone then { w with stopped := true } else w

def receive (w : Watch) : Option Notice × Watch :=
  (w.queue.head?, { w with queue := w.queue.drop 1 })

/-- Receives whatever can be received; a cancelled watch heeds that before it goes on. Each change
takes three actions and finding out what is kept takes one, so the fuel is more than what is needed.
-/
def drainWith (log : List Change) : (fuel : Nat) → Watch → List Notice × Watch
  | 0, w => ([], w)
  | fuel + 1, w =>
    match w.receive with
    | (some n, w) =>
      let (more, w) := drainWith log fuel w
      (n :: more, w)
    | (none, w) => drainWith log fuel (w.heed.proceed log)

def drain (log : List Change) (w : Watch) : List Notice × Watch :=
  w.drainWith log (3 * (log.length - max w.next (oldestKept log) + w.queue.length) + 5)

end Watch
end RemoteCall.Store
