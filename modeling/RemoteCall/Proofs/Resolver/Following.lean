import RemoteCall.Proofs.Registry.Listed
import RemoteCall.Resolver.Following

/-! What the sink of a resolver was given last.

At any time the newest list is right, or it is still to be read, or there is an event on its way
that will have it read. This holds from the start because the subscription comes before the first
listing, and the registry keeps it up because it announces whatever changes the list of the service.
-/
namespace RemoteCall

theorem Resolver.requestRefresh_eq {r : Resolver} (h : r.phase ≠ .stopped) :
    r.requestRefresh = { r with refresh := true } := by
  rw [requestRefresh, if_neg fun hs => h (eq_of_beq hs)]

namespace Following
open Resolver (Wake)
open Instance (Distinct)
variable {σ : Type} {sink : Sink σ} {s t : Following σ} {a : Action}
  {actions : List Action} {service : String}
  {n : Nat}

/-! All cases -/

inductive Stepping (sink : Sink σ) (s : Following σ) : Action → Following σ → Prop
  | registers (i : Instance) :
    Stepping sink s (.register i) { s with registry := s.registry.register i }
  | unregisters (i : Instance) :
    Stepping sink s (.unregister i) { s with registry := s.registry.unregister i }
  | updates (instances : List Instance) :
    Stepping sink s (.update instances) { s with registry := s.registry.update instances }
  | closesRegistry : Stepping sink s .closeRegistry { s with registry := s.registry.close }
  | subscribes (hn : s.subscription = none) : Stepping sink s .subscribe { s with
      registry := (s.registry.subscribe s.resolver.service).1
      subscription := some (s.registry.subscribe s.resolver.service).2 }
  | begins (n : Nat) (hn : s.subscription = some n) (hphase : s.resolver.phase = .listing)
    (hdue : s.listing = .due) : Stepping sink s .begin { s with listing := .begun }
  | reads (hphase : s.resolver.phase = .listing) (hbegun : s.listing = .begun) :
    Stepping sink s .read { s with listing := .read (s.registry.list s.resolver.service) }
  | fails (a : Action) (e : Error) (ha : a = .expire ∧ e = s.resolver.slowError ∨ a = .fail e)
    (hphase : s.resolver.phase = .listing) (hbegun : s.listing = .begun) :
    Stepping sink s a { s with
      sink := sink.take s.sink (.error e)
      resolver := s.resolver.listed
      listing := .due }
  | handsOn (instances : List Instance) (hphase : s.resolver.phase = .listing)
    (hread : s.listing = .read instances) : Stepping sink s .handOn { s with
      sink := sink.take s.sink (.ok instances)
      given := s.given ++ [instances]
      resolver := s.resolver.listed
      listing := .due }
  | completes (hbuilt : s.built = false) (hphase : s.resolver.phase = .waiting) :
    Stepping sink s .complete { s with built := true }
  | takes (n : Nat) (e : Event) (hn : s.subscription = some n) (hhand : s.inHand = none)
    (he : (s.registry.receive n).1 = some e) :
    Stepping sink s .take { s with registry := (s.registry.receive n).2, inHand := some e }
  | forsakes (n : Nat) (e : Event) (hn : s.subscription = some n) (hhand : s.inHand = some e)
    (hphase : s.resolver.phase = .stopped) :
    Stepping sink s .pass { s with registry := s.registry.leave n, inHand := none }
  | passes (n : Nat) (e : Event) (hn : s.subscription = some n) (hhand : s.inHand = some e)
    (hphase : s.resolver.phase ≠ .stopped) (hroom : s.queue.length < queueCapacity) :
    Stepping sink s .pass { s with inHand := none, queue := s.queue ++ [e] }
  | wakes (w : Wake) (hbuilt : s.built = true) (hphase : s.resolver.phase = .waiting)
    (hreason : s.hasReason w = true) : Stepping sink s (.wake w) (s.goOn sink w)
  | refreshes (hbuilt : s.built = true) :
    Stepping sink s .refresh { s with resolver := s.resolver.requestRefresh }
  | closes (hbuilt : s.built = true) :
    Stepping sink s .close { s with resolver := s.resolver.close }

theorem stepping_fail {e : Error} (ha : a = .expire ∧ e = s.resolver.slowError ∨ a = .fail e)
    (h : s.fail? sink e = some t) : Stepping sink s a t := by
  rw [fail?] at h
  split at h
  · rename_i hphase hbegun
    cases h
    exact .fails a e ha hphase hbegun
  · cases h

theorem stepping_subscribe (h : s.step? sink .subscribe = some t) :
    Stepping sink s .subscribe t := by
  simp only [step?] at h
  split at h
  · rename_i hn
    cases h
    exact .subscribes hn
  · cases h

theorem stepping_begin (h : s.step? sink .begin = some t) : Stepping sink s .begin t := by
  simp only [step?] at h
  split at h
  · rename_i n hn hphase hdue
    cases h
    exact .begins n hn hphase hdue
  · cases h

theorem stepping_read (h : s.step? sink .read = some t) : Stepping sink s .read t := by
  simp only [step?] at h
  split at h
  · rename_i hphase hbegun
    cases h
    exact .reads hphase hbegun
  · cases h

theorem stepping_handOn (h : s.step? sink .handOn = some t) : Stepping sink s .handOn t := by
  simp only [step?] at h
  split at h
  · rename_i instances hphase hread
    cases h
    exact .handsOn instances hphase hread
  · cases h

theorem stepping_complete (h : s.step? sink .complete = some t) : Stepping sink s .complete t := by
  simp only [step?] at h
  split at h
  · rename_i hbuilt hphase
    cases h
    exact .completes hbuilt hphase
  · cases h

theorem stepping_take (h : s.step? sink .take = some t) : Stepping sink s .take t := by
  simp only [step?] at h
  split at h
  · rename_i n hn hhand
    split at h
    · rename_i e registry he
      cases h
      have htake : Stepping sink s .take _ := .takes n e hn hhand (congrArg Prod.fst he)
      rw [he] at htake
      exact htake
    · cases h
  · cases h

/-- What the forwarder has in hand is passed on or, if the resolver has stopped, given up. -/
theorem stepping_pass (h : s.step? sink .pass = some t) : Stepping sink s .pass t := by
  simp only [step?] at h
  split at h
  · rename_i n e hn hhand
    split at h
    · rename_i hphase
      cases h
      exact .forsakes n e hn hhand (eq_of_beq hphase)
    rename_i hphase
    split at h
    · rename_i hroom
      cases h
      exact .passes n e hn hhand (fun hs => hphase (beq_iff_eq.mpr hs)) hroom
    · cases h
  · cases h

theorem stepping_wake {w : Wake} (h : s.step? sink (.wake w) = some t) :
    Stepping sink s (.wake w) t := by
  simp only [step?] at h
  split at h
  · rename_i hbuilt hphase
    split at h
    · rename_i hreason
      cases h
      exact .wakes w hbuilt hphase hreason
    · cases h
  · cases h

theorem stepping_refresh (h : s.step? sink .refresh = some t) : Stepping sink s .refresh t := by
  simp only [step?] at h
  split at h
  · rename_i hbuilt
    cases h
    exact .refreshes hbuilt
  · cases h

theorem stepping_close (h : s.step? sink .close = some t) : Stepping sink s .close t := by
  simp only [step?] at h
  split at h
  · rename_i hbuilt
    cases h
    exact .closes hbuilt
  · cases h

/-- These are all cases of what can be done. -/
theorem stepping (h : s.step? sink a = some t) : Stepping sink s a t := by
  cases a with
  | register i =>
    cases h
    exact .registers i
  | unregister i =>
    cases h
    exact .unregisters i
  | update instances =>
    cases h
    exact .updates instances
  | closeRegistry =>
    cases h
    exact .closesRegistry
  | subscribe => exact stepping_subscribe h
  | begin => exact stepping_begin h
  | read => exact stepping_read h
  | expire => exact stepping_fail (.inl ⟨rfl, rfl⟩) h
  | fail e => exact stepping_fail (.inr rfl) h
  | handOn => exact stepping_handOn h
  | complete => exact stepping_complete h
  | take => exact stepping_take h
  | pass => exact stepping_pass h
  | wake w => exact stepping_wake h
  | refresh => exact stepping_refresh h
  | close => exact stepping_close h

/-- Whatever can be done is done. -/
theorem step_eq (h : Stepping sink s a t) : s.step sink a = t := by
  rw [step]
  cases h with
  | subscribes hn => simp only [step?, hn, Option.getD_some]
  | begins n hn hphase hdue => simp only [step?, hn, hphase, hdue, Option.getD_some]
  | reads hphase hbegun => simp only [step?, hphase, hbegun, Option.getD_some]
  | fails a e ha hphase hbegun =>
    rcases ha with ⟨rfl, rfl⟩ | rfl
    · simp only [step?, fail?, hphase, hbegun, Option.getD_some]
    · simp only [step?, fail?, hphase, hbegun, Option.getD_some]
  | handsOn instances hphase hread => simp only [step?, hphase, hread, Option.getD_some]
  | completes hbuilt hphase => simp only [step?, hbuilt, hphase, Option.getD_some]
  | takes n e hn hhand he =>
    have hreceive : s.registry.receive n = (some e, (s.registry.receive n).2) := Prod.ext he rfl
    simp only [step?, hn, hhand]
    rw [hreceive]
    rfl
  | forsakes n e hn hhand hphase =>
    simp only [step?, hn, hhand, hphase, beq_self_eq_true, ↓reduceIte, Option.getD_some]
  | passes n e hn hhand hphase hroom =>
    simp only [step?, hn, hhand, beq_eq_false_iff_ne.mpr hphase,
      Bool.false_eq_true, hroom, ↓reduceIte, Option.getD_some]
  | wakes w hbuilt hphase hreason =>
    simp only [step?, hbuilt, hphase, hreason, ↓reduceIte, Option.getD_some]
  | refreshes hbuilt => simp only [step?, hbuilt, ↓reduceIte, Option.getD_some]
  | closes hbuilt => simp only [step?, hbuilt, ↓reduceIte, Option.getD_some]
  | _ => rfl

/-- An action does what it can, or nothing. -/
theorem stepping_or_eq (sink : Sink σ) (s : Following σ) (a : Action) :
    Stepping sink s a (s.step sink a) ∨ s.step sink a = s := by
  rw [step]
  cases hs : s.step? sink a with
  | none => exact .inr rfl
  | some t => exact .inl (stepping hs)

/-! The newest list -/

def Unread (s : Following σ) : Prop :=
  s.resolver.phase = .listing ∧ (s.listing = .due ∨ s.listing = .begun)

/-- The list that was read last, handed on or not. -/
def newest (s : Following σ) : Option (List Instance) :=
  match s.listing with
  | .read instances => some instances
  | _ => s.given.getLast?

/-- What the registry lists now for the service, in whatever order. -/
def IsCurrent (s : Following σ) (instances : List Instance) : Prop :=
  ∀ i, i ∈ instances ↔ i ∈ s.registry.list s.resolver.service

/-- The newest list is right, or will be read again. -/
def Fresh (s : Following σ) : Prop :=
  s.pending ≠ [] ∨ s.Unread ∨ ∃ instances, s.newest = some instances ∧ s.IsCurrent instances

structure Follows (s : Following σ) : Prop where
  distinct : Distinct s.registry.instances
  phase_ne : s.resolver.phase ≠ .stopped
  cancelled : s.resolver.cancelled = false
  subscribed : ∀ n, s.subscription = some n → (s.registry.subscription n).isOpen = true ∧
    (s.registry.subscription n).service = s.resolver.service
  unsubscribed : s.subscription = none → s.resolver.phase = .listing ∧ s.listing = .due
  due : s.resolver.phase = .waiting → s.listing = .due
  built : s.built = true → s.subscription ≠ none
  fresh : s.Fresh

/-- While there is a list to hand on, no other is to be read. -/
theorem not_unread {instances : List Instance} (hread : s.listing = .read instances) :
    ¬ s.Unread := by
  rintro ⟨-, hdue | hbegun⟩
  · rw [hread] at hdue
    cases hdue
  · rw [hread] at hbegun
    cases hbegun

theorem pending_eq (hn : s.subscription = some n) :
    s.pending = s.queue ++ (s.inHand.toList ++ (s.registry.subscription n).waiting) := by
  rw [pending, hn]
  rfl

/-- In the beginning the list is still to be read. -/
theorem follows_new {registry : ListedRegistry} {timeout : Duration} {state : σ}
    (h : Distinct registry.instances) : (new registry service timeout state).Follows where
  distinct := h
  phase_ne := nofun
  cancelled := rfl
  subscribed := nofun
  unsubscribed _ := ⟨rfl, rfl⟩
  due := nofun
  built := nofun
  fresh := .inr (.inl ⟨rfl, .inl rfl⟩)

/-- A change of the registry leads to an event, or does not concern the service. -/
theorem Follows.changes {registry : ListedRegistry} {events : List Event} (h : s.Follows)
    (hchanges : s.registry.Changes registry events) : Follows { s with registry } := by
  have htold (n : Nat) (hn : s.subscription = some n) :
      registry.subscription n = { s.registry.subscription n with
      waiting := (s.registry.subscription n).waiting ++
        events.filter (s.registry.subscription n).wants } := by
    rw [hchanges.told, Subscription.foldl_send (h.subscribed n hn).1]
  refine ⟨hchanges.distinct, h.phase_ne, h.cancelled, fun n hn =>
    ?_, h.unsubscribed, h.due, h.built, ?_⟩
  · rw [htold n hn]
    exact h.subscribed n hn
  rcases Option.eq_none_or_eq_some s.subscription with hn | ⟨n, hn⟩
  · obtain ⟨hphase, hdue⟩ := h.unsubscribed hn
    exact .inr (.inl ⟨hphase, .inl hdue⟩)
  · -- from here on there is somebody to tell
    let u : Following σ := { s with registry }
    have hpending : u.pending = s.pending ++ events.filter (s.registry.subscription n).wants := by
      rw [pending_eq hn, pending_eq (s := u) hn, htold n hn]
      simp only [List.append_assoc]
      rfl
    change u.Fresh
    by_cases hquiet : ∀ e ∈ events, e.inst.name ≠ s.resolver.service
    · have hkept := hchanges.kept _ hquiet
      refine h.fresh.imp (fun hs => ?_) (Or.imp_right ?_)
      · rw [hpending]
        exact List.append_ne_nil_of_left_ne_nil hs _
      · rintro ⟨instances, hnewest, hcurrent⟩
        exact ⟨instances, hnewest, fun i => (hcurrent i).trans (hkept i).symm⟩
    · -- the event waits for the forwarder
      simp only [not_forall, not_not] at hquiet
      obtain ⟨e, he, hname⟩ := hquiet
      have hwants : (s.registry.subscription n).wants e = true := by
        rw [Subscription.wants, (h.subscribed n hn).2, hname, beq_self_eq_true]
      left
      rw [hpending]
      exact List.append_ne_nil_of_right_ne_nil _
        (List.ne_nil_of_mem (List.mem_filter.mpr ⟨he, hwants⟩))

theorem follows_subscribes (h : s.Follows) (hn : s.subscription = none) : Follows { s with
    registry := (s.registry.subscribe s.resolver.service).1
    subscription := some (s.registry.subscribe s.resolver.service).2 } where
  distinct := h.distinct
  phase_ne := h.phase_ne
  cancelled := h.cancelled
  subscribed n hsub := by
    cases hsub
    rw [ListedRegistry.subscription_subscribe]
    exact ⟨rfl, rfl⟩
  unsubscribed := nofun
  due := h.due
  built _ := Option.some_ne_none _
  fresh := .inr (.inl ⟨(h.unsubscribed hn).1, .inl (h.unsubscribed hn).2⟩)

/-- The forwarder takes an event, which is still on its way. -/
theorem follows_takes {e : Event} (h : s.Follows) (hn : s.subscription = some n) :
    Follows { s with registry := (s.registry.receive n).2, inHand := some e } := by
  have hsub := ListedRegistry.subscription_receive (h.subscribed n hn).1
  refine ⟨h.distinct, h.phase_ne, h.cancelled, fun m hm => ?_, h.unsubscribed,
    h.due, h.built, .inl ?_⟩
  · have hm : s.subscription = some m := hm
    rw [hn] at hm
    cases hm
    rw [hsub]
    exact h.subscribed n hn
  · exact List.append_ne_nil_of_right_ne_nil _ (List.cons_ne_nil _ _)

theorem follows_passes {e : Event} (h : s.Follows) :
    Follows { s with inHand := none, queue := s.queue ++ [e] } := by
  refine ⟨h.distinct, h.phase_ne, h.cancelled, h.subscribed, h.unsubscribed,
    h.due, h.built, .inl ?_⟩
  exact List.append_ne_nil_of_left_ne_nil
    (List.append_ne_nil_of_right_ne_nil _ (List.cons_ne_nil _ _)) _

theorem follows_begins (h : s.Follows) (hn : s.subscription = some n)
    (hphase : s.resolver.phase = .listing) : Follows { s with listing := .begun } := by
  refine ⟨h.distinct, h.phase_ne, h.cancelled, h.subscribed, fun hnone => ?_,
    fun hw => ?_, h.built, ?_⟩
  · exact absurd (hn.symm.trans hnone) (Option.some_ne_none n)
  · exact absurd (hphase.symm.trans hw) (by decide)
  · exact .inr (.inl ⟨hphase, .inr rfl⟩)

/-- What is read is right. -/
theorem follows_reads (h : s.Follows) (hphase : s.resolver.phase = .listing)
    (hbegun : s.listing = .begun) :
    Follows { s with listing := .read (s.registry.list s.resolver.service) } := by
  refine ⟨h.distinct, h.phase_ne, h.cancelled, h.subscribed, fun hnone => ?_,
    fun hw => ?_, h.built, ?_⟩
  · exact absurd (hbegun.symm.trans (h.unsubscribed hnone).2) (by decide)
  · exact absurd (hphase.symm.trans hw) (by decide)
  · exact .inr (.inr ⟨_, rfl, fun i => Iff.rfl⟩)

/-- What is handed on is as right as it was. -/
theorem follows_handsOn {instances : List Instance} {state : σ} (h : s.Follows)
    (hread : s.listing = .read instances) : Follows { s with
      sink := state
      given := s.given ++ [instances]
      resolver := s.resolver.listed
      listing := .due } := by
  refine ⟨h.distinct, nofun, h.cancelled, h.subscribed, fun hnone => ?_, fun _ => rfl, h.built, ?_⟩
  · have hdue := (h.unsubscribed hnone).2
    rw [hread] at hdue
    cases hdue
  refine h.fresh.imp_right fun hs => .inr ?_
  obtain ⟨newest, hnewest, hcurrent⟩ := hs.resolve_left (not_unread hread)
  rw [Following.newest, hread] at hnewest
  cases hnewest
  exact ⟨instances, List.getLast?_concat, hcurrent⟩

/-- The resolver goes on only to list again. -/
theorem Follows.reason {w : Wake} (h : s.Follows) (hphase : s.resolver.phase = .waiting)
    (hreason : s.hasReason w = true) : w = .event ∨ w = .refresh := by
  have hn : s.subscription ≠ none := fun hnone => by
    rw [(h.unsubscribed hnone).1] at hphase
    cases hphase
  obtain ⟨n, hn⟩ := Option.ne_none_iff_exists'.mp hn
  cases w with
  | cancelled =>
    have hcancelled : s.resolver.cancelled = true := hreason
    rw [h.cancelled] at hcancelled
    cases hcancelled
  | ended =>
    simp only [hasReason, hn, Option.map_some, Option.getD_some, Subscription.hasEnded,
      (h.subscribed n hn).1, Bool.not_true, Bool.false_and, Bool.and_false,
      Bool.false_eq_true] at hreason
  | event => exact .inl rfl
  | refresh => exact .inr rfl

theorem follows_wakes {w : Wake} (h : s.Follows) (hphase : s.resolver.phase = .waiting)
    (hreason : s.hasReason w = true) : (s.goOn sink w).Follows := by
  have hdue := h.due hphase
  -- the two ways to go on differ in what is left of the events and of the request
  rcases h.reason hphase hreason with rfl | rfl
  · exact ⟨h.distinct, nofun, h.cancelled, h.subscribed, fun _ => ⟨rfl, hdue⟩, nofun, h.built,
      .inr (.inl ⟨rfl, .inl hdue⟩)⟩
  · exact ⟨h.distinct, nofun, h.cancelled, h.subscribed, fun _ => ⟨rfl, hdue⟩, nofun, h.built,
      .inr (.inl ⟨rfl, .inl hdue⟩)⟩

theorem follows_refreshes (h : s.Follows) :
    Follows { s with resolver := s.resolver.requestRefresh } := by
  rw [Resolver.requestRefresh_eq h.phase_ne]
  exact ⟨h.distinct, h.phase_ne, h.cancelled, h.subscribed, h.unsubscribed, h.due, h.built, h.fresh⟩

/-! Whole runs -/

/-- Nothing is closed and no listing fails or takes too long, and no update names an identity twice.
-/
def Action.Orderly : Action → Prop
  | .update instances => Distinct instances
  | .closeRegistry | .close | .expire | .fail _ => False
  | _ => True

theorem Action.not_orderly_of_fails {e slow : Error} (h : a = .expire ∧ e = slow ∨ a = .fail e) :
    ¬ a.Orderly := by
  rcases h with ⟨rfl, -⟩ | rfl
  · exact not_false
  · exact not_false

/-- Whatever happens in order, the newest list is right or will be read again. -/
theorem follows_stepping (h : s.Follows) (ha : a.Orderly) (hs : Stepping sink s a t) :
    t.Follows := by
  cases hs with
  | registers i => exact h.changes (ListedRegistry.changes_register h.distinct i)
  | unregisters i =>
    obtain ⟨events, hchanges⟩ := ListedRegistry.changes_unregister h.distinct i
    exact h.changes hchanges
  | updates instances => exact h.changes (ListedRegistry.changes_update h.distinct ha)
  | closesRegistry => exact ha.elim
  | subscribes hn => exact follows_subscribes h hn
  | begins n hn hphase _ => exact follows_begins h hn hphase
  | reads hphase hbegun => exact follows_reads h hphase hbegun
  | fails _ _ hfail => exact absurd ha (Action.not_orderly_of_fails hfail)
  | handsOn instances _ hread => exact follows_handsOn h hread
  | completes _ hphase =>
    refine ⟨h.distinct, h.phase_ne, h.cancelled, h.subscribed, h.unsubscribed, h.due,
      fun _ hnone => ?_, h.fresh⟩
    rw [(h.unsubscribed hnone).1] at hphase
    cases hphase
  | takes n e hn _ _ => exact follows_takes h hn
  | forsakes _ _ _ _ hphase => exact absurd hphase h.phase_ne
  | passes => exact follows_passes h
  | wakes w _ hphase hreason => exact follows_wakes h hphase hreason
  | refreshes _ => exact follows_refreshes h
  | closes _ => exact ha.elim

theorem follows_step (h : s.Follows) (ha : a.Orderly) : (s.step sink a).Follows := by
  rcases stepping_or_eq sink s a with hs | hs
  · exact follows_stepping h ha hs
  · rwa [hs]

theorem follows_run (h : s.Follows) (ha : ∀ a ∈ actions, a.Orderly) :
    (s.run sink actions).Follows := by
  -- on what is left of the run, from any state that follows
  induction actions generalizing s with
  | nil => exact h
  | cons a rest ih =>
    apply ih (follows_step h (ha a List.mem_cons_self))
    exact fun b hb => ha b (List.mem_cons_of_mem _ hb)

/-- A resolver stays with its service. -/
theorem service_stepping (h : Stepping sink s a t) : t.resolver.service = s.resolver.service := by
  cases h with
  | wakes w =>
    cases w with
    | cancelled => rfl
    | event => rfl
    | ended => rfl
    | refresh => rfl
  | refreshes =>
    change s.resolver.requestRefresh.service = s.resolver.service
    unfold Resolver.requestRefresh
    split
    · rfl
    · rfl
  | _ => rfl

theorem service_run (actions : List Action) :
    (s.run sink actions).resolver.service = s.resolver.service := by
  induction actions generalizing s with
  | nil => rfl
  | cons a rest ih =>
    have hstep : (s.step sink a).resolver.service = s.resolver.service := by
      rcases stepping_or_eq sink s a with hs | hs
      · exact service_stepping hs
      · rw [hs]
    exact ih.trans hstep

/-- At rest the list that was handed on last is right. -/
theorem Follows.atRest (h : s.Follows) (hrest : s.AtRest) :
    ∃ instances, s.given.getLast? = some instances ∧ s.IsCurrent instances := by
  rcases h.fresh with hpending | ⟨hphase, -⟩ | ⟨instances, hnewest, hcurrent⟩
  · exact absurd hrest.pending hpending
  · rw [hrest.waiting] at hphase
    cases hphase
  · rw [newest, h.due hrest.waiting] at hnewest
    exact ⟨instances, hnewest, hcurrent⟩

end Following
end RemoteCall
