import RemoteCall.Selection.Action

/-! Response times that are learnt while other calls end as well.

The callback of a call takes a sample, for which it looks at the average if the call has failed, and
then puts the sample into the average. Either takes effect at once, and anything can come between
the two. -/
namespace RemoteCall.Selection

/-- A sample that is to go into the average of an endpoint. -/
structure Sample where
  endpoint : Nat
  micros : Nat
deriving DecidableEq, Repr, Inhabited

/-- A selector, with the samples that were taken and have gone into no average yet. -/
structure Sampling where
  selector : Selector
  pending : List Sample := []

/-- The sample of a call that has ended, if its pick is one that measures response times. -/
def Selector.sample? (s : Selector) (p : Pick) (failed : Bool) (now : Int) : Option Sample :=
  match p.choice.notice with
  | .latency e start => some
      ⟨e, latencySample (s.endpoint e).latency.toNat ((now - start) / 1000).toNat failed⟩
  | _ => none

namespace Sampling

inductive Step where
  | pick (call : Call) (now : Int) (draw : Nat)
  /-- A call ends, and its callback takes a sample. Any other pick learns all that it is to learn.
  -/
  | take (pick : Pick) (failed : Bool) (now : Int)
  /-- A callback goes on: its sample goes into the average. -/
  | record (k : Nat)
deriving DecidableEq, Repr

def step (s : Sampling) : Step → Sampling
  | .pick call now draw => { s with selector := s.selector.step (.pick call now draw) }
  | .take p failed now =>
    match s.selector.sample? p failed now with
    | some x => { s with pending := s.pending ++ [x] }
    | none => { s with selector := s.selector.finish p failed now }
  | .record k =>
    match s.pending[k]? with
    | some x => {
        selector := s.selector.modify x.endpoint fun e => e.record x.micros
        pending := s.pending.eraseIdx k }
    | none => s

def run (s : Sampling) (steps : List Step) : Sampling := steps.foldl step s

def uninterrupted : Selection.Action → List Step
  | .pick call now draw => [.pick call now draw]
  | .finish p failed now => [.take p failed now, .record 0]

end Sampling
end RemoteCall.Selection
