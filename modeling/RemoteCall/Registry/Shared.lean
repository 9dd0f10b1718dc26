import RemoteCall.Registry.Leased

/-! A store that registries share, with all their subscriptions.

Each action below is one uninterrupted action of a registry, of anybody else who uses the store, of
the store itself or of a party to a subscription; what happens in between is any order of actions.
-/
namespace RemoteCall

structure SharedStore where
  store : Store := {}
  /-- In the order in which they were established. -/
  registries : List LeasedRegistry := []
  /-- In the order in which they were made. -/
  feeds : List Feed := []
deriving Inhabited

namespace SharedStore

/-- Registries and subscriptions go by their numbers. -/
inductive Action where
  | pass (span : Nat)
  | sweep
  | grant (span : Duration)
  | keepAlive (lease : Nat)
  | revoke (lease : Nat)
  | put (key value : String) (lease : Option Nat)
  | delete (key : String)
  | establish (span : Duration)
  | register (r : Nat) (i : Instance)
  | unregister (i : Instance)
  | subscribe (r : Nat) (service : String)
  | close (r : Nat)
  | look (k : Nat)
  | heedWatch (k : Nat)
  | forward (k : Nat)
  | heed (k : Nat)
  | receive (k : Nat)
  | leave (k : Nat)
deriving DecidableEq

def onFeed (s : SharedStore) (k : Nat) (f : Feed → Feed) : SharedStore :=
  { s with feeds := s.feeds.modify k f }

def establish (s : SharedStore) (span : Duration) : SharedStore :=
  match LeasedRegistry.establish s.store span with
  | (store, .answer (.ok registry)) => { s with store, registries := s.registries ++ [registry] }
  | (store, _) => { s with store }

def register (s : SharedStore) (r : Nat) (i : Instance) : SharedStore :=
  match s.registries[r]? with
  | some registry => { s with store := (registry.register s.store i).1 }
  | none => s

def subscribe (s : SharedStore) (r : Nat) (service : String) : SharedStore :=
  match s.registries[r]? with
  | some registry => { s with feeds := s.feeds ++ [registry.subscribe s.store service] }
  | none => s

/-- The subscriptions of a registry that closes are cancelled. -/
def close (s : SharedStore) (r : Nat) : SharedStore :=
  match s.registries[r]? with
  | some registry =>
    let (closed, store, _) := registry.close s.store
    { store
      registries := s.registries.set r closed
      feeds := s.feeds.map fun f => if f.lease == registry.lease then f.cancel else f }
  | none => s

def step (s : SharedStore) : Action → SharedStore
  | .pass span => { s with store := { s.store with now := s.store.now + span } }
  | .sweep => { s with store := s.store.sweep }
  | .grant span => { s with store := (s.store.grant span).1 }
  | .keepAlive lease => { s with store := (s.store.keepAlive lease).1 }
  | .revoke lease => { s with store := (s.store.revoke lease).1 }
  | .put key value lease => { s with store := (s.store.put key value lease).1 }
  | .delete key => { s with store := (s.store.delete key).1 }
  | .establish span => s.establish span
  | .register r i => s.register r i
  | .unregister i => { s with store := (LeasedRegistry.unregister s.store i).1 }
  | .subscribe r service => s.subscribe r service
  | .close r => s.close r
  | .look k => s.onFeed k fun f => f.look s.store.log
  | .heedWatch k => s.onFeed k Feed.heedWatch
  | .forward k => s.onFeed k Feed.forward
  | .heed k => s.onFeed k Feed.heed
  | .receive k => s.onFeed k Feed.receive
  | .leave k => s.onFeed k Feed.leave

def run (s : SharedStore) (actions : List Action) : SharedStore := actions.foldl step s

end SharedStore
end RemoteCall
