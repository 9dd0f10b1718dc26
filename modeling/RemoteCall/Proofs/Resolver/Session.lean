import RemoteCall.Proofs.Resolver.Ending
import RemoteCall.Resolver.Session

/-! A session of a resolver is one of its possible runs.

In a session listings take as long as planned, and an event reaches the resolver at once. Whatever a
session comes to, the resolver and its registry can come to by their own actions, so what holds of
all their runs holds of sessions. -/
namespace RemoteCall.Following
open Resolver (Wake Recorder Session)
variable {f g : Following Recorder} {s : Session} {w : Wake}

/-- The resolver and its registry have come to where the session is. -/
structure Mirrors (f : Following Recorder) (s : Session) : Prop where
  registry : f.registry = s.registry
  resolver : f.resolver = s.resolver
  sink : f.sink = s.recorder
  subscription : f.subscription = some s.subscription
  inHand : f.inHand = none
  queue : f.queue = []
  listing : f.listing = if s.resolver.phase = .listing then .begun else .due
  built : f.built = true

def Reaches (f : Following Recorder) (s : Session) : Prop :=
  ∃ actions, (f.run Recorder.sink actions).Mirrors s

theorem Mirrors.reaches (h : f.Mirrors s) : f.Reaches s := ⟨[], h⟩

theorem run_append {σ : Type} {sink : Sink σ} {t : Following σ} {before after : List Action} :
    t.run sink (before ++ after) = (t.run sink before).run sink after := List.foldl_append

theorem Reaches.step {a : Action} (hstep : Stepping Recorder.sink f a g) (h : g.Reaches s) :
    f.Reaches s := by
  obtain ⟨actions, hrun⟩ := h
  refine ⟨a :: actions, ?_⟩
  change ((f.step Recorder.sink a).run Recorder.sink actions).Mirrors s
  rw [step_eq hstep]
  exact hrun

theorem Reaches.trans {u : Session} (h : f.Reaches s) (hnext : ∀ g, Mirrors g s → g.Reaches u) :
    f.Reaches u := by
  obtain ⟨actions, hrun⟩ := h
  obtain ⟨more, hmore⟩ := hnext _ hrun
  refine ⟨actions ++ more, ?_⟩
  rw [run_append]
  exact hmore

/-- The time and the plan are the session's own. -/
theorem Mirrors.congr {u : Session} (h : f.Mirrors s) (hregistry : u.registry = s.registry)
    (hresolver : u.resolver = s.resolver) (hrecorder : u.recorder = s.recorder)
    (hsubscription : u.subscription = s.subscription) : f.Mirrors u where
  registry := h.registry.trans hregistry.symm
  resolver := h.resolver.trans hresolver.symm
  sink := h.sink.trans hrecorder.symm
  subscription := hsubscription ▸ h.subscription
  inHand := h.inHand
  queue := h.queue
  listing := hresolver ▸ h.listing
  built := h.built

/-! What a session does -/

theorem Mirrors.due (h : f.Mirrors s) (hphase : s.resolver.phase = .waiting) :
    f.listing = .due := by
  rw [h.listing, hphase, if_neg nofun]

/-- A session goes on only for a reason that there is. -/
theorem reason_of_wake? (hw : s.wake? = some w) : w = .cancelled ∧ s.resolver.cancelled = true ∨
    w = .event ∧ (s.registry.subscription s.subscription).waiting ≠ [] ∨
    w = .ended ∧ (s.registry.subscription s.subscription).hasEnded = true ∨
    w = .refresh ∧ s.resolver.refresh = true := by
  simp only [Session.wake?] at hw
  split at hw
  · rename_i hcancelled
    cases hw
    exact .inl ⟨rfl, hcancelled⟩
  split at hw
  · rename_i hwaiting
    cases hw
    refine .inr (.inl ⟨rfl, fun hnil => ?_⟩)
    rw [hnil] at hwaiting
    cases hwaiting
  split at hw
  · rename_i hended
    cases hw
    exact .inr (.inr (.inl ⟨rfl, hended⟩))
  split at hw
  · rename_i hrefresh
    cases hw
    exact .inr (.inr (.inr ⟨rfl, hrefresh⟩))
  · cases hw

/-- The resolver goes on and, if it is to list, begins. -/
theorem reaches_goOn (h : f.Mirrors s) (hphase : s.resolver.phase = .waiting)
    (hw : s.wake? = some w) : f.Reaches (s.goOn w) := by
  have hbuilt := h.built
  have hdue := h.due hphase
  -- with the fields of the session in place of its own, both sides compute
  obtain ⟨registry, resolver, sink, subscription, inHand, queue, listing, built, given⟩ := f
  obtain ⟨hregistry, hresolver, hsink, hsubscription, hhand, hqueue, -, -⟩ := h
  dsimp only at hregistry hresolver hsink hsubscription hhand hqueue hbuilt hdue
  subst hregistry hresolver hsink hsubscription hhand hqueue hbuilt hdue
  rcases reason_of_wake? hw with ⟨rfl, hcancelled⟩ | ⟨rfl, hwaiting⟩ | ⟨rfl,
    hended⟩ | ⟨rfl, hrefresh⟩
  · refine Reaches.step (.wakes .cancelled rfl hphase hcancelled) (Mirrors.reaches ?_)
    exact ⟨rfl, rfl, rfl, rfl, rfl, rfl, rfl, rfl⟩
  · -- the event goes through the hands of the forwarder
    obtain ⟨e, rest, he⟩ := List.exists_cons_of_ne_nil hwaiting
    have htake : (s.registry.receive s.subscription).1 = some e := by
      rw [ListedRegistry.receive, he]
      rfl
    have hroom : ([] : List Event).length < queueCapacity := by decide
    have hgoing : s.resolver.phase ≠ .stopped := by
      rw [hphase]
      decide
    refine Reaches.step (.takes s.subscription e rfl rfl htake) ?_
    refine Reaches.step (.passes s.subscription e rfl rfl hgoing hroom) ?_
    refine Reaches.step (.wakes .event rfl hphase rfl) ?_
    refine Reaches.step (.begins s.subscription rfl rfl rfl) (Mirrors.reaches ?_)
    exact ⟨rfl, rfl, rfl, rfl, rfl, rfl, rfl, rfl⟩
  · refine Reaches.step (.wakes .ended rfl hphase hended) (Mirrors.reaches ?_)
    exact ⟨rfl, rfl, rfl, rfl, rfl, rfl, rfl, rfl⟩
  · refine Reaches.step (.wakes .refresh rfl hphase hrefresh) ?_
    refine Reaches.step (.begins s.subscription rfl rfl rfl) (Mirrors.reaches ?_)
    exact ⟨rfl, rfl, rfl, rfl, rfl, rfl, rfl, rfl⟩

/-- The resolver hands on what the listing led to, be it the first one or a later one. -/
theorem reaches_handOn (h : Mirrors { f with built := true } s)
    (hphase : s.resolver.phase = .listing) : f.Reaches s.handOn := by
  -- after the first listing the resolver goes to whoever built it
  have hcomplete (g : Following Recorder) (hg : Mirrors { g with built := true } s.handOn) :
      g.Reaches s.handOn := by
    cases hbuilt : g.built with
    | true =>
      have hsame : g = { g with built := true } := by
        rw [← hbuilt]
      rw [hsame]
      exact hg.reaches
    | false =>
      exact Reaches.step (.completes hbuilt (congrArg Resolver.phase hg.resolver)) hg.reaches
  have hlisting := h.listing
  rw [hphase, if_pos rfl] at hlisting
  obtain ⟨registry, resolver, sink, subscription, inHand, queue, listing, built, given⟩ := f
  obtain ⟨hregistry, hresolver, hsink, hsubscription, hhand, hqueue, -, -⟩ := h
  dsimp only at hregistry hresolver hsink hsubscription hhand hqueue hlisting
  subst hregistry hresolver hsink hsubscription hhand hqueue hlisting
  rw [Session.handOn] at hcomplete ⊢
  cases hfailure : s.listing.2 with
  | some e =>
    rw [hfailure] at hcomplete
    refine Reaches.step (.fails (.fail e) e (.inr rfl) hphase rfl) (hcomplete _ ?_)
    exact ⟨rfl, rfl, rfl, rfl, rfl, rfl, rfl, rfl⟩
  | none =>
    rw [hfailure] at hcomplete
    refine Reaches.step (.reads hphase rfl) ?_
    refine Reaches.step (.handsOn _ hphase rfl) (hcomplete _ ?_)
    exact ⟨rfl, rfl, rfl, rfl, rfl, rfl, rfl, rfl⟩

theorem Mirrors.isBuilt (h : f.Mirrors s) : Mirrors { f with built := true } s := by
  rw [← h.built]
  exact h

/-- Each round of a session is done by actions of the resolver and the registry. -/
theorem reaches_settle (fuel : Nat) (h : f.Mirrors s) : f.Reaches (s.settle fuel) := by
  -- each round of the session hands a list on or goes on for a reason, or is the last
  induction fuel generalizing f s with
  | zero => exact h.reaches
  | succ fuel ih =>
    rw [Session.settle]
    cases hphase : s.resolver.phase with
    | stopped => exact h.reaches
    | listing =>
      dsimp only
      split
      · exact (reaches_handOn h.isBuilt hphase).trans fun g hg => ih hg
      · exact h.reaches
    | waiting =>
      dsimp only
      cases hw : s.wake? with
      | none => exact h.reaches
      | some w => exact (reaches_goOn h hphase hw).trans fun g hg => ih hg

theorem reaches_settled (h : f.Mirrors s) : f.Reaches s.settled := reaches_settle _ h

theorem reaches_moveTo (target : Int) (fuel : Nat) (h : f.Mirrors s) :
    f.Reaches (s.moveTo target fuel) := by
  induction fuel generalizing f s with
  | zero =>
    have hnow : f.Mirrors { s with now := target } := h.congr rfl rfl rfl rfl
    exact hnow.reaches
  | succ fuel ih =>
    rw [Session.moveTo]
    split
    · have hnow : f.Mirrors { s with now := max s.now s.listing.1 } := h.congr rfl rfl rfl rfl
      exact (reaches_settled hnow).trans fun g hg => ih hg
    · have hnow : f.Mirrors { s with now := target } := h.congr rfl rfl rfl rfl
      exact hnow.reaches

/-- As time goes by. -/
theorem reaches_advance (h : f.Mirrors s) (span : Nat) : f.Reaches (s.advance span) :=
  (reaches_moveTo _ _ h).trans fun _ hg => reaches_settled hg

/-- A change of the registry in a session, where the registry has an action for it. -/
theorem reaches_mapRegistry {a : Action} (h : f.Mirrors s)
    (change : ListedRegistry → ListedRegistry)
    (hstep : Stepping Recorder.sink f a { f with registry := change f.registry }) :
    f.Reaches (s.mapRegistry change) := by
  refine Reaches.step hstep (Mirrors.reaches ?_)
  refine ⟨?_, h.resolver, h.sink, h.subscription, h.inHand, h.queue, h.listing, h.built⟩
  rw [h.registry]
  rfl

/-- A request to the resolver that leaves its phase alone. -/
theorem reaches_mapResolver {change : Resolver → Resolver} {a : Action} (h : f.Mirrors s)
    (hstep : Stepping Recorder.sink f a { f with resolver := change f.resolver })
    (hphase : ∀ r : Resolver, (change r).phase = r.phase) :
    f.Reaches { s with resolver := change s.resolver } := by
  refine Reaches.step hstep (Mirrors.reaches ?_)
  refine ⟨h.registry, ?_, h.sink, h.subscription, h.inHand, h.queue, ?_, h.built⟩
  · rw [h.resolver]
  · rw [hphase, h.listing]

/-- So is each command. -/
theorem reaches_perform (h : f.Mirrors s) (c : Session.Command) : f.Reaches (s.perform c) := by
  cases c with
  | register i => exact reaches_mapRegistry h (·.register i) (.registers i)
  | unregister i => exact reaches_mapRegistry h (·.unregister i) (.unregisters i)
  | update instances => exact reaches_mapRegistry h (·.update instances) (.updates instances)
  | closeRegistry => exact reaches_mapRegistry h (·.close) .closesRegistry
  | plan paces =>
    have hplan : f.Mirrors { s with plan := s.plan ++ paces } := h.congr rfl rfl rfl rfl
    exact hplan.reaches
  | refresh => exact reaches_mapResolver h (.refreshes h.built) phase_requestRefresh
  | advance span => exact reaches_advance h span
  | close => exact reaches_mapResolver h (.closes h.built) fun _ => rfl

theorem reaches_run (h : f.Mirrors s) (commands : List Session.Command) :
    f.Reaches (s.run commands) := by
  -- on the commands that are left, from wherever the session is
  induction commands generalizing f s with
  | nil => exact h.reaches
  | cons c rest ih =>
    have hone : f.Reaches (s.perform c).settled :=
      (reaches_perform h c).trans fun _ hg => reaches_settled hg
    exact hone.trans fun g hg => ih hg

/-- At the end of a listing the first round hands on, even if nobody has got the resolver yet. -/
theorem reaches_first (h : Mirrors { f with built := true } s)
    (hphase : s.resolver.phase = .listing) (hend : s.listing.1 ≤ s.now) : f.Reaches s.settled := by
  have hround : s.settled = s.handOn.settle (2 * s.pending + 1) := by
    rw [Session.settled, Session.settle, hphase]
    exact if_pos hend
  rw [hround]
  exact (reaches_handOn h hphase).trans fun _ hg => reaches_settle _ hg

/-- A session begins as a resolver that has subscribed and lists for the first time. -/
theorem reaches_start (registry : ListedRegistry) (service : String) (timeout : Duration)
    (plan : List Resolver.Pace) (refusals : List Error) :
    (new registry service timeout { refusals }).Reaches
      (Session.start registry service timeout plan refusals) := by
  refine Reaches.step (.subscribes rfl) ?_
  refine Reaches.step (.begins _ rfl rfl rfl) (reaches_first ?_ rfl (Int.le_refl _))
  exact ⟨rfl, rfl, rfl, rfl, rfl, rfl, rfl, rfl⟩

/-- Whatever is done in a session, and however its listings go, the resolver and its registry can
come to where the session is by their own actions. -/
theorem reaches_session (registry : ListedRegistry) (service : String) (timeout : Duration)
    (plan : List Resolver.Pace) (refusals : List Error) (commands : List Session.Command) :
    (new registry service timeout { refusals }).Reaches
      ((Session.start registry service timeout plan refusals).run commands) :=
  (reaches_start registry service timeout plan refusals).trans fun _ hg => reaches_run hg commands

end RemoteCall.Following

namespace RemoteCall.Resolver.Session
open Following (stopped_run)

/-- Once its resolver has stopped, whatever is done in a session, the sink is given nothing more. -/
theorem stopped_for_good {registry : ListedRegistry} {service : String} {timeout : Duration}
    {plan : List Pace} {refusals : List Error} {before : List Command} {s : Session}
    (hs : (start registry service timeout plan refusals).run before = s)
    (hphase : s.resolver.phase = .stopped) (more : List Command) :
    (s.run more).resolver.phase = .stopped ∧ (s.run more).recorder = s.recorder := by
  subst hs
  obtain ⟨actions, hsession⟩ :=
    Following.reaches_session registry service timeout plan refusals before
  obtain ⟨rest, hmore⟩ := Following.reaches_run hsession more
  rw [← hsession.resolver] at hphase
  obtain ⟨hstopped, hsink⟩ := stopped_run Recorder.sink rest hphase
  constructor
  · rw [← hmore.resolver]
    exact hstopped
  · rw [← hmore.sink, ← hsession.sink]
    exact hsink

end RemoteCall.Resolver.Session
