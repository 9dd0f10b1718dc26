import RemoteCall.Proofs.Resolver.Following
import Mathlib.Data.List.GetD
import Mathlib.Data.Nat.Init

/-! What becomes of a request to refresh.

From the moment it is made there is a listing to come: the request waits, or the resolver has gone
on and is about to list. At most three moves of the resolver are left before that listing begins,
and nothing that others do adds to them. -/
namespace RemoteCall.Following
open Resolver (Wake)
open Instance (Distinct)
variable {σ : Type} {sink : Sink σ} {s t : Following σ} {a : Action}
  {actions : Nat → Action} {n m : Nat}

/-- A listing is asked for and has not begun. -/
structure Asked (s : Following σ) : Prop where
  follows : s.Follows
  built : s.built = true
  asked : s.resolver.refresh = true ∨ s.resolver.phase = .listing ∧ s.listing = .due

def distance (s : Following σ) : Nat :=
  match s.resolver.phase, s.listing with
  | .listing, .begun => 3
  | .listing, .read _ => 2
  | .waiting, _ => 1
  | _, _ => 0

theorem Asked.refresh (h : s.Asked) (hdue : s.resolver.phase = .listing → s.listing ≠ .due) :
    s.resolver.refresh = true :=
  h.asked.resolve_right fun hs => hdue hs.1 hs.2

/-- The resolver always has a move. -/
theorem Asked.moves (h : s.Asked) (sink : Sink σ) : ∃ a, s.Moves sink a := by
  cases hphase : s.resolver.phase with
  | stopped => exact absurd hphase h.follows.phase_ne
  | waiting =>
    have hrefresh := h.refresh fun hl => by
      rw [hphase] at hl
      cases hl
    refine ⟨.wake .refresh, trivial, ?_⟩
    simp only [step?, h.built, hphase, hasReason, hrefresh, ↓reduceIte, Option.isSome_some]
  | listing =>
    cases hlisting : s.listing with
    | due =>
      obtain ⟨n, hn⟩ := Option.ne_none_iff_exists'.mp (h.follows.built h.built)
      refine ⟨.begin, trivial, ?_⟩
      simp only [step?, hn, hphase, hlisting, Option.isSome_some]
    | begun =>
      refine ⟨.read, trivial, ?_⟩
      simp only [step?, hphase, hlisting, Option.isSome_some]
    | read instances =>
      refine ⟨.handOn, trivial, ?_⟩
      simp only [step?, hphase, hlisting, Option.isSome_some]

/-- What neither concerns the listing nor is a move of the resolver leaves it as far away. -/
theorem Asked.stays (h : s.Asked) (hfollows : t.Follows) (hbuilt : t.built = true)
    (hrefresh : s.resolver.refresh = true → t.resolver.refresh = true)
    (hphase : t.resolver.phase = s.resolver.phase) (hlisting : t.listing = s.listing)
    (hother : ¬ a.IsResolvers) :
    t.Asked ∧ t.distance ≤ s.distance ∧ (a.IsResolvers → t.distance < s.distance) := by
  have hdistance : t.distance = s.distance := by
    rw [distance, distance, hphase, hlisting]
  refine ⟨⟨hfollows, hbuilt, ?_⟩, Nat.le_of_eq hdistance, fun hr => absurd hr hother⟩
  rw [hphase, hlisting]
  exact h.asked.imp_left hrefresh

/-- When the resolver wakes up, the listing is due at once. -/
theorem Asked.wakes (h : s.Asked) {w : Wake} (hfollows : (s.goOn sink w).Follows)
    (hbuilt : s.built = true) (hphase : s.resolver.phase = .waiting)
    (hreason : s.hasReason w = true) :
    (s.goOn sink w).Asked ∧ (s.goOn sink w).distance < s.distance := by
  have hdue := h.follows.due hphase
  have hlisting : (s.goOn sink w).resolver.phase = .listing := by
    rcases h.follows.reason hphase hreason with rfl | rfl
    · rfl
    · rfl
  have hdistance : (s.goOn sink w).distance = 0 := by
    have hsame : (s.goOn sink w).listing = .due := hdue
    rw [distance, hlisting, hsame]
  refine ⟨⟨hfollows, hbuilt, .inr ⟨hlisting, hdue⟩⟩, ?_⟩
  rw [hdistance, distance, hphase]
  exact Nat.one_pos

/-- Until the listing begins it stays asked for, and each move of the resolver brings it nearer. -/
theorem asked_stepping (h : s.Asked) (ha : a.Orderly) (hs : Stepping sink s a t)
    (hbegin : a ≠ .begin) :
    t.Asked ∧ t.distance ≤ s.distance ∧ (a.IsResolvers → t.distance < s.distance) := by
  have hfollows := follows_stepping h.follows ha hs
  cases hs with
  | registers => exact h.stays hfollows h.built id rfl rfl not_false
  | unregisters => exact h.stays hfollows h.built id rfl rfl not_false
  | updates => exact h.stays hfollows h.built id rfl rfl not_false
  | closesRegistry => exact ha.elim
  | subscribes => exact h.stays hfollows h.built id rfl rfl not_false
  | begins => exact absurd rfl hbegin
  | reads hphase hbegun =>
    have hrefresh := h.refresh fun _ hdue => by
      rw [hbegun] at hdue
      cases hdue
    refine ⟨⟨hfollows, h.built, .inl hrefresh⟩, ?_, fun _ => ?_⟩
    · simp only [distance, hphase, hbegun]
      omega
    · simp only [distance, hphase, hbegun]
      omega
  | fails _ _ hfail => exact absurd ha (Action.not_orderly_of_fails hfail)
  | handsOn instances hphase hread =>
    have hrefresh := h.refresh fun _ hdue => by
      rw [hread] at hdue
      cases hdue
    refine ⟨⟨hfollows, h.built, .inl hrefresh⟩, ?_, fun _ => ?_⟩
    · simp only [distance, hphase, hread, Resolver.listed]
      omega
    · simp only [distance, hphase, hread, Resolver.listed]
      omega
  | completes => exact h.stays hfollows rfl id rfl rfl not_false
  | takes => exact h.stays hfollows h.built id rfl rfl not_false
  | forsakes => exact h.stays hfollows h.built id rfl rfl not_false
  | passes => exact h.stays hfollows h.built id rfl rfl not_false
  | wakes w hbuilt hphase hreason =>
    obtain ⟨hasked, hless⟩ := h.wakes hfollows hbuilt hphase hreason
    exact ⟨hasked, Nat.le_of_lt hless, fun _ => hless⟩
  | refreshes =>
    rw [Resolver.requestRefresh_eq h.follows.phase_ne] at hfollows ⊢
    exact h.stays hfollows h.built (fun _ => rfl) rfl rfl not_false
  | closes => exact ha.elim

def Begins (sink : Sink σ) (s : Following σ) (a : Action) : Prop :=
  a = .begin ∧ (s.step? sink a).isSome = true

/-- Unless a listing begins, it stays asked for, and the moves of the resolver bring it nearer. -/
theorem asked_step (h : s.Asked) (ha : a.Orderly) (hno : ¬ s.Begins sink a) :
    (s.step sink a).Asked ∧ (s.step sink a).distance ≤ s.distance ∧
      (s.Moves sink a → (s.step sink a).distance < s.distance) := by
  rw [step]
  cases hs : s.step? sink a with
  | none =>
    refine ⟨h, Nat.le_refl _, fun hm => ?_⟩
    have hsome := hm.2
    rw [hs] at hsome
    cases hsome
  | some t =>
    have hbegin : a ≠ .begin := fun hb => hno ⟨hb, by rw [hs]; rfl⟩
    obtain ⟨hasked, hle, hlt⟩ := asked_stepping h ha (stepping hs) hbegin
    exact ⟨hasked, hle, fun hm => hlt hm.1⟩

/-! Endless runs -/

theorem after_succ : s.after sink actions (n + 1) = (s.after sink actions n).step sink
    (actions n) := by
  rw [after, after, List.range_succ, List.map_append, run, run, List.foldl_append]
  rfl

theorem follows_after (n : Nat) (h : s.Follows) (ha : ∀ n, (actions n).Orderly) :
    (s.after sink actions n).Follows := by
  apply follows_run h
  intro a hin
  obtain ⟨k, -, rfl⟩ := List.mem_map.mp hin
  exact ha k

/-- What is asked for stays so until a listing begins, and gets no further away. -/
theorem asked_after (ha : ∀ n, (actions n).Orderly) (h : (s.after sink actions n).Asked)
    (hnm : n ≤ m) (hno : ∀ k, n ≤ k → k < m → ¬ (s.after sink actions k).Begins sink (actions k)) :
    (s.after sink actions m).Asked ∧
    (s.after sink actions m).distance ≤ (s.after sink actions n).distance := by
  induction m, hnm using Nat.le_induction with
  | base => exact ⟨h, Nat.le_refl _⟩
  | succ m hnm ih =>
    obtain ⟨hasked, hle⟩ := ih fun k hk hkm => hno k hk (Nat.lt_succ_of_lt hkm)
    obtain ⟨hnext, hstep, -⟩ := asked_step hasked (ha m) (hno m hnm (Nat.lt_succ_self m))
    rw [after_succ]
    exact ⟨hnext, Nat.le_trans hstep hle⟩

/-- What is asked for begins. -/
theorem begins_of_asked (ha : ∀ n, (actions n).Orderly) (hfair : s.Fair sink actions)
    (h : (s.after sink actions n).Asked) :
    ∃ m, n ≤ m ∧ (s.after sink actions m).Begins sink (actions m) := by
  by_contra hnever
  have hno (k : Nat) (hk : n ≤ k) : ¬ (s.after sink actions k).Begins sink (actions k) :=
    fun hb => hnever ⟨k, hk, hb⟩
  -- otherwise the distance would become smaller without end
  have hdescent (d : Nat) : ∀ m, n ≤ m → (s.after sink actions m).distance = d → False := by
    induction d using Nat.strong_induction_on with
    | _ d ih =>
      rintro m hnm rfl
      obtain ⟨hm, -⟩ := asked_after ha h hnm fun k hk _ => hno k hk
      obtain ⟨k, hmk, hmoves⟩ := hfair m (hm.moves sink)
      have hnk := Nat.le_trans hnm hmk
      obtain ⟨hk, hle⟩ := asked_after ha hm hmk fun j hj _ => hno j (Nat.le_trans hnm hj)
      have hlt := (asked_step hk (ha k) (hno k hnk)).2.2 hmoves
      rw [← after_succ] at hlt
      exact ih _ (Nat.lt_of_lt_of_le hlt hle) (k + 1) (Nat.le_succ_of_le hnk) rfl
  exact hdescent _ n (Nat.le_refl n) rfl

/-- A resolver loses no update. As long as nothing is closed and every listing is answered, whatever
happens to the registry at whatever time: whenever no event is on its way and the resolver waits,
the list that was handed on last has exactly the instances that the registry lists for the service
now. And after every request to refresh a listing begins. -/
theorem updates_handed_on (sink : Sink σ) (state : σ) (registry : ListedRegistry) (service : String)
    (timeout : Duration) (hdistinct : Distinct registry.instances) :
    (∀ (actions : List Action) (s : Following σ), (∀ a ∈ actions, a.Orderly) →
      (new registry service timeout state).run sink actions = s → s.AtRest →
      ∃ instances, s.given.getLast? = some instances ∧
        ∀ i, i ∈ instances ↔ i ∈ s.registry.list service) ∧
    ∀ actions : Nat → Action, (∀ n, (actions n).Orderly) →
      (new registry service timeout state).Fair sink actions →
      ∀ n, ((new registry service timeout state).after sink actions n).built = true →
      actions n = .refresh →
      ∃ m, n < m ∧
        ((new registry service timeout state).after sink actions m).Begins sink (actions m) := by
  have hnew : (new registry service timeout state).Follows := follows_new hdistinct
  constructor
  · rintro actions s ha rfl hrest
    have hservice :
        ((new registry service timeout state).run sink actions).resolver.service = service :=
      service_run actions
    obtain ⟨instances, hgiven, hcurrent⟩ := (follows_run hnew ha).atRest hrest
    rw [IsCurrent, hservice] at hcurrent
    exact ⟨instances, hgiven, hcurrent⟩
  · intro actions ha hfair n hbuilt hrefresh
    have hn : ((new registry service timeout state).after sink actions n).Follows :=
      follows_after n hnew ha
    have hnext : (new registry service timeout state).after sink actions (n + 1) =
        { (new registry service timeout state).after sink actions n with
          resolver := ((new registry service timeout state).after sink actions
            n).resolver.requestRefresh } := by
      rw [after_succ, hrefresh, step, step?, if_pos hbuilt]
      rfl
    have hasked : ((new registry service timeout state).after sink actions (n + 1)).Asked := by
      refine ⟨follows_after _ hnew ha, ?_, ?_⟩
      · rw [hnext]
        exact hbuilt
      · rw [hnext, Resolver.requestRefresh_eq hn.phase_ne]
        exact .inl rfl
    exact begins_of_asked ha hfair hasked

def indifferent : Sink Unit := ⟨fun _ _ => ((), .ok ()), fun _ _ => ()⟩

def watched : Following Unit :=
  new { instances := [{ name := "a", address := "h:1" }] } "a" (.ofSecs 1) ()

/-- An instance comes while the first listing is under way, and two requests while the second is. -/
def overlapping : List Action :=
  [.subscribe, .begin, .read, .register { name := "a", address := "h:2" }, .handOn,
    .complete, .take, .pass,
    .wake .event, .begin, .refresh, .refresh, .read, .handOn, .wake .refresh,
    .begin, .read, .handOn]

/-- After that only an instance is taken out that is not there. -/
def overlappingOn (n : Nat) : Action :=
  overlapping.getD n (.unregister { name := "b", address := "h:1" })

theorem overlapping_orderly : ∀ a ∈ overlapping, a.Orderly := by
  simp [overlapping, Action.Orderly]

theorem after_overlapping (hn : overlapping.length ≤ n) :
    watched.after indifferent overlappingOn n = watched.run indifferent overlapping := by
  induction n, hn using Nat.le_induction with
  | base => decide +kernel
  | succ n hn ih =>
    have hidle : overlappingOn n = .unregister { name := "b", address := "h:1" } :=
      List.getD_eq_default _ _ hn
    rw [after_succ, ih, hidle]
    decide +kernel

theorem fair_overlapping : watched.Fair indifferent overlappingOn := by
  intro n hmoves
  rcases Nat.lt_or_ge n overlapping.length with hlt | hge
  · -- the last action of all is one of the resolver
    have hlast : (watched.after indifferent overlappingOn 17).Moves
        indifferent (overlappingOn 17) :=
      ⟨trivial, by decide +kernel⟩
    exact ⟨17, Nat.le_of_lt_succ hlt, hlast⟩
  · -- then it waits, and there is nothing to go on for
    obtain ⟨a, hown, hcan⟩ := hmoves
    rw [after_overlapping hge] at hcan
    cases a with
    | begin => exact absurd hcan (by decide +kernel)
    | read => exact absurd hcan (by decide +kernel)
    | handOn => exact absurd hcan (by decide +kernel)
    | wake w =>
      cases w with
      | cancelled => exact absurd hcan (by decide +kernel)
      | event => exact absurd hcan (by decide +kernel)
      | ended => exact absurd hcan (by decide +kernel)
      | refresh => exact absurd hcan (by decide +kernel)
    | _ => exact hown.elim

/-- An event and a request that fall into listings still lead to another one, and to the right list.
-/
theorem updates_handed_on_overlapping :
    (∃ instances, (watched.run indifferent overlapping).given.getLast? = some instances ∧
      ∀ i, i ∈ instances ↔ i ∈ (watched.run indifferent overlapping).registry.list "a") ∧
    ∃ m, 11 < m ∧
      (watched.after indifferent overlappingOn m).Begins indifferent (overlappingOn m) := by
  have hdistinct : Distinct [({ name := "a", address := "h:1" } : Instance)] :=
    List.pairwise_singleton _ _
  have horderly (n : Nat) : (overlappingOn n).Orderly := by
    rcases Nat.lt_or_ge n overlapping.length with hlt | hge
    · rw [overlappingOn, List.getD_eq_getElem _ _ hlt]
      exact overlapping_orderly _ (List.getElem_mem hlt)
    · rw [overlappingOn, List.getD_eq_default _ _ hge]
      trivial
  have hall := updates_handed_on indifferent ()
    { instances := [{ name := "a", address := "h:1" }] } "a"
    (.ofSecs 1) hdistinct
  constructor
  · exact hall.1 overlapping _ overlapping_orderly rfl ⟨by decide +kernel, by decide +kernel⟩
  · exact hall.2 overlappingOn horderly fair_overlapping 11 (by decide +kernel) (by decide +kernel)

end RemoteCall.Following
