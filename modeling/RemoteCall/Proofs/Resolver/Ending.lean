import RemoteCall.Proofs.Resolver.Following

/-! A resolver that is asked to end.

It ends when it waits next and goes on because it was asked to, so a listing that is in progress is
still handed on, and another one can begin if an event or a request to refresh comes first. Nothing
else is handed on. -/
namespace RemoteCall.Following
open Resolver (Wake)
variable {σ : Type} {sink : Sink σ} {s t : Following σ} {a : Action}

/-- Whether a listing is in progress, as a number of lists that may still be handed on. -/
def inProgress (s : Following σ) : Nat := if s.resolver.phase = .listing then 1 else 0

def Action.begins : Action → Bool
  | .wake .event | .wake .refresh => true
  | _ => false

structure AskedToEnd (s : Following σ) : Prop where
  built : s.built = true
  cancelled : s.resolver.cancelled = true

/-- The sink is given a list, or it hears of an error at most. -/
theorem stepping_handed (h : Stepping sink s a t) :
    (∃ instances, t.given = s.given ++ [instances] ∧ t.sink = sink.take s.sink (.ok instances)) ∨
      t.given = s.given ∧ (t.sink = s.sink ∨ ∃ e, t.sink = sink.report s.sink e) := by
  cases h with
  | handsOn instances => exact .inl ⟨instances, rfl, rfl⟩
  | fails a e => exact .inr ⟨rfl, .inr ⟨e, rfl⟩⟩
  | wakes w =>
    cases w with
    | ended => exact .inr ⟨rfl, .inr ⟨_, rfl⟩⟩
    | cancelled | event | refresh => exact .inr ⟨rfl, .inl rfl⟩
  | _ => exact .inr ⟨rfl, .inl rfl⟩

theorem phase_requestRefresh (r : Resolver) : r.requestRefresh.phase = r.phase := by
  unfold Resolver.requestRefresh
  split <;> rfl

theorem cancelled_requestRefresh (r : Resolver) : r.requestRefresh.cancelled = r.cancelled := by
  unfold Resolver.requestRefresh
  split <;> rfl

theorem inProgress_congr (h : t.resolver.phase = s.resolver.phase) :
    t.inProgress = s.inProgress := by
  rw [inProgress, inProgress, h]

/-- Whatever is handed on was listed, and whatever is listed was begun. -/
theorem length_given_stepping (h : Stepping sink s a t) :
    t.given.length + t.inProgress ≤ s.given.length + s.inProgress + a.begins.toNat := by
  have hsame (hgiven : t.given = s.given) (hphase : t.resolver.phase = s.resolver.phase) :
      t.given.length + t.inProgress ≤ s.given.length + s.inProgress + a.begins.toNat := by
    rw [hgiven, inProgress_congr hphase]
    exact Nat.le_add_right _ _
  cases h with
  | handsOn instances hphase =>
    have hs : s.inProgress = 1 := if_pos hphase
    change (s.given ++ [instances]).length + 0 ≤ _
    rw [List.length_append, List.length_singleton]
    omega
  | fails a e ha hphase =>
    change s.given.length + 0 ≤ _
    omega
  | wakes w hbuilt hphase =>
    -- to begin a listing counts, to stop does not
    cases w with
    | cancelled | ended =>
      change s.given.length + 0 ≤ _
      omega
    | event | refresh =>
      change s.given.length + 1 ≤ s.given.length + s.inProgress + 1
      omega
  | refreshes => exact hsame rfl (phase_requestRefresh _)
  | _ => exact hsame rfl rfl

/-- Nobody takes back that the resolver was asked to end. -/
theorem askedToEnd_stepping (h : Stepping sink s a t) (hs : s.AskedToEnd) : t.AskedToEnd := by
  cases h with
  | completes => exact ⟨rfl, hs.cancelled⟩
  | wakes w => cases w <;> exact ⟨hs.built, hs.cancelled⟩
  | refreshes => exact ⟨hs.built, (cancelled_requestRefresh _).trans hs.cancelled⟩
  | closes => exact ⟨hs.built, rfl⟩
  | _ => exact ⟨hs.built, hs.cancelled⟩

/-- A resolver that has stopped does nothing more. -/
theorem stopped_stepping (h : Stepping sink s a t) (hs : s.resolver.phase = .stopped) :
    t.resolver.phase = .stopped ∧ t.given = s.given ∧ t.sink = s.sink := by
  cases h with
  | begins _ _ hphase | reads hphase | fails _ _ _ hphase | handsOn _ hphase | completes _ hphase
  | wakes _ _ hphase => exact nomatch hs.symm.trans hphase
  | refreshes => exact ⟨(phase_requestRefresh _).trans hs, rfl, rfl⟩
  | _ => exact ⟨hs, rfl, rfl⟩

/-- Whatever is done after that, the sink stays as it is. -/
theorem stopped_run (sink : Sink σ) (actions : List Action) (hs : s.resolver.phase = .stopped) :
    (s.run sink actions).resolver.phase = .stopped ∧ (s.run sink actions).sink = s.sink := by
  induction actions generalizing s with
  | nil => exact ⟨hs, rfl⟩
  | cons a rest ih =>
    have hstep : (s.step sink a).resolver.phase = .stopped ∧ (s.step sink a).sink = s.sink := by
      rcases stepping_or_eq sink s a with hstepping | hsame
      · obtain ⟨hphase, -, hsink⟩ := stopped_stepping hstepping hs
        exact ⟨hphase, hsink⟩
      · rw [hsame]
        exact ⟨hs, rfl⟩
    obtain ⟨hphase, hsink⟩ := ih hstep.1
    exact ⟨hphase, hsink.trans hstep.2⟩

/-- A resolver that waits and was asked to end can do so at once. -/
theorem AskedToEnd.stops (h : s.AskedToEnd) (hphase : s.resolver.phase = .waiting) :
    (s.step sink (.wake .cancelled)).resolver.phase = .stopped := by
  have hstep : Stepping sink s (.wake .cancelled) (s.goOn sink .cancelled) :=
    .wakes .cancelled h.built hphase h.cancelled
  rw [step_eq hstep]
  rfl

end RemoteCall.Following
