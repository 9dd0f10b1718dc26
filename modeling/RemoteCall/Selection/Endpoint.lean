import RemoteCall.Registry.Instance

/-! Endpoints: ready instances with what the choice among them has learnt. -/
namespace RemoteCall.Selection

structure Endpoint where
  inst : Instance
  /-- The number of the pool that calls to it go through. -/
  pool : Nat
  /-- Calls that were sent to it by least activity and have not ended. -/
  active : UInt32 := 0
  /-- The moving average of its response times, in microseconds. -/
  latency : UInt64 := 100000
deriving DecidableEq, Repr, Inhabited

/-- The moving average after one more sample, which weighs three tenths. -/
def movingAverage (average sample : Nat) : Nat := (average * 7 + sample * 3) / 10

/-- The response time that a call counts as. A call that failed counts as at least twice the
average, so that failing fast does not look fast. -/
def latencySample (average elapsed : Nat) (failed : Bool) : Nat :=
  min (if failed then max elapsed (2 * average) else elapsed) (UInt64.size - 1)

namespace Endpoint

def enter (e : Endpoint) : Endpoint := { e with active := e.active + 1 }

def leave (e : Endpoint) : Endpoint := { e with active := e.active - 1 }

def record (e : Endpoint) (sample : Nat) : Endpoint :=
  { e with latency := .ofNat (movingAverage e.latency.toNat sample) }

/-- Learns from a call that took so many microseconds, while nothing else is learnt. -/
def observe (e : Endpoint) (elapsed : Nat) (failed : Bool) : Endpoint :=
  e.record (latencySample e.latency.toNat elapsed failed)

end Endpoint
end RemoteCall.Selection
