import RemoteCall.Store.Action
import RemoteCall.Store.Watch

/-! A store with all who watch it.

Each action below is one uninterrupted action of the store, of a watch or of its receiver; what
happens in between is any order of actions. -/
namespace RemoteCall

structure Watcher where
  watch : Store.Watch
  /-- What was received, the oldest first. -/
  received : List Store.Notice := []
  /-- The receiver is gone. -/
  left : Bool := false
deriving Inhabited

namespace Watcher
open Store (Change)

/-- The watch goes on. It stops when it has something in hand that nobody takes any more. -/
def look (log : List Change) (w : Watcher) : Watcher :=
  if w.left && w.watch.inHand.isSome then
    { w with watch := { w.watch with inHand := none, stopped := true } }
  else { w with watch := w.watch.proceed log }

def heed (w : Watcher) : Watcher := { w with watch := w.watch.heed }

def receive (w : Watcher) : Watcher :=
  match w.watch.receive with
  | (some n, watch) => { w with watch, received := w.received ++ [n] }
  | (none, _) => w

def cancel (w : Watcher) : Watcher := { w with watch.cancelled := true }

def leave (w : Watcher) : Watcher := { w with left := true, watch.queue := [] }

end Watcher

structure WatchedStore where
  store : Store := {}
  /-- In the order in which they began. -/
  watchers : List Watcher := []
deriving Inhabited

namespace WatchedStore

/-- Watches go by their numbers. -/
inductive Action where
  | store (a : Store.Action)
  | watch (scope : String)
  | look (k : Nat)
  | heed (k : Nat)
  | receive (k : Nat)
  | cancel (k : Nat)
  | leave (k : Nat)
deriving DecidableEq

def onWatcher (s : WatchedStore) (k : Nat) (f : Watcher → Watcher) : WatchedStore :=
  { s with watchers := s.watchers.modify k f }

def step (s : WatchedStore) : Action → WatchedStore
  | .store a => { s with store := s.store.step a }
  | .watch scope => { s with watchers := s.watchers ++ [{ watch := .ofScope s.store scope }] }
  | .look k => s.onWatcher k fun w => w.look s.store.log
  | .heed k => s.onWatcher k Watcher.heed
  | .receive k => s.onWatcher k Watcher.receive
  | .cancel k => s.onWatcher k Watcher.cancel
  | .leave k => s.onWatcher k Watcher.leave

def run (s : WatchedStore) (actions : List Action) : WatchedStore := actions.foldl step s

def new (now : Int) : WatchedStore := { store := .new now }

end WatchedStore
end RemoteCall
