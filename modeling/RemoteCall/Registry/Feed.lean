import RemoteCall.Store.Watch

/-! Subscriptions to a service.

A watch passes on the changes of the service to a forwarder, which passes on what they say to the
receiver. Both have room for a few only, so that a receiver that does not receive makes both wait.
-/
namespace RemoteCall

open Store (Change Notice Watch)

structure Feed where
  service : String
  /-- The lease of the registry through which the subscription was made. -/
  lease : Nat
  watch : Watch
  /-- A change that is to be forwarded but found no room. -/
  inHand : Option Notice := none
  /-- Changes forwarded and not yet received, the oldest first. -/
  queue : List Notice := []
  /-- What was received, the oldest first. -/
  received : List Notice := []
  /-- The receiver is gone. -/
  left : Bool := false
  /-- Nothing more will be forwarded. -/
  ended : Bool := false
deriving DecidableEq, Repr, Inhabited

namespace Feed

/-- The watch goes on. It stops when it has something in hand that nobody takes any more. -/
def look (log : List Change) (f : Feed) : Feed :=
  if f.ended && f.watch.inHand.isSome then
    { f with watch := { f.watch with inHand := none, stopped := true } }
  else { f with watch := f.watch.proceed log }

def heedWatch (f : Feed) : Feed := { f with watch := f.watch.heed }

/-- Forwarding ends. What the watch passed on and still has is dropped with it. -/
def finish (f : Feed) : Feed :=
  { f with ended := true, inHand := none, watch := { f.watch with cancelled := true, queue := [] } }

/-- The forwarder goes on: it forwards what is in hand, once there is room, or else takes the next.
-/
def forward (f : Feed) : Feed :=
  if f.ended then f
  else match f.inHand with
    | some n =>
      if f.left then f.finish
      else if f.queue.length < Store.queueCapacity
        then { f with inHand := none, queue := f.queue ++ [n] }
      else f
    | none =>
      match f.watch.receive with
      | (some n, watch) => { f with inHand := some n, watch }
      | (none, _) => if f.watch.stopped then f.finish else f

/-- With nothing in hand the forwarder may find that it is cancelled, or that the receiver is gone.
-/
def heed (f : Feed) : Feed :=
  if !f.ended && f.inHand.isNone && (f.watch.cancelled || f.left) then f.finish else f

def receive (f : Feed) : Feed :=
  match f.queue with
  | [] => f
  | n :: rest => { f with queue := rest, received := f.received ++ [n] }

def leave (f : Feed) : Feed := { f with left := true, queue := [] }

def cancel (f : Feed) : Feed := { f with watch.cancelled := true }

/-- Ends at once; what was not passed on is lost. -/
def cut (f : Feed) : Feed :=
  { f.finish with queue := [], watch := { f.finish.watch with inHand := none, stopped := true } }

/-- One action, of whoever is closest to the receiver and can do something. -/
def advance (log : List Change) (f : Feed) : Feed :=
  if !f.queue.isEmpty then f.receive
  else if f.inHand.isSome || !f.watch.queue.isEmpty then f.forward
  else f.look log

def pending (log : List Change) (f : Feed) : Nat :=
  5 * (log.length - f.watch.next) + 4 * f.watch.inHand.toList.length + 3 * f.watch.queue.length +
    2 * f.inHand.toList.length + f.queue.length

def advanceBy (log : List Change) : Nat → Feed → Feed
  | 0, f => f
  | n + 1, f => advanceBy log n (f.advance log)

/-- Receives whatever can be received; a cancelled subscription only ends. -/
def drain (log : List Change) (f : Feed) : Feed :=
  if f.watch.cancelled then f.heed.heedWatch else f.advanceBy log (f.pending log)

end Feed
end RemoteCall
