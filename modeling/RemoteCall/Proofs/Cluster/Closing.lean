import RemoteCall.Cluster.Upkeep
import RemoteCall.Proofs.Balancer.Lasting
import RemoteCall.Proofs.Pool.Closed
import RemoteCall.Proofs.Resolver.Ending

/-! What is closed with a client, and what can still come of a resolver that goes on.

Only a list that is handed on changes the ready set. As long as there is none after the client was
closed, all pools that calls can get to are closed, and nobody gets a connection. A list that is
handed on later brings in open pools which nobody closes any more. -/
namespace RemoteCall

/-- What a balancer does with a list keeps its pools, whether it takes the list over or not. -/
theorem Balancer.Intact.take {b : Balancer} (h : b.Intact) (instances : List Instance) :
    (Balancer.sink.take b (.ok instances)).Intact ∧
    b.GoesOn (Balancer.sink.take b (.ok instances)) := by
  simp only [Sink.take, Balancer.sink]
  cases hu : b.update instances with
  | ok b' => exact h.update hu
  | error e => exact ⟨⟨h.known, h.bound, h.balanced⟩, .refl b⟩

namespace Upkeep
open Following (Stepping)
variable {s t : Upkeep} {a : Action} {actions during after : List Action} {e k : Nat}

/-- Closing begins with the resolver, and that changes nothing else. -/
theorem step_close (hbuilt : s.built = true) :
    s.step (.resolver .close) = { s with resolver := s.resolver.close } :=
    Following.step_eq (.closes hbuilt)

theorem step_pool (hbuilt : s.built = true) (k : Nat) (x : Pool.Step) :
    s.step (.pool k x) = { s with sink := s.sink.step (.pool k x) } := if_pos hbuilt

theorem run_closings (hbuilt : s.built = true) (es : List Nat) :
    s.run (es.map fun e => .pool (s.sink.poolOf e) .close) =
      { s with sink := es.foldl Balancer.closePool s.sink } := by
  induction es generalizing s with
  | nil => rfl
  | cons e es ih =>
    change (s.step (.pool (s.sink.poolOf e) .close)).run
      (es.map fun e => .pool (s.sink.poolOf e) .close) = _
    rw [step_pool hbuilt]
    exact @ih { s with sink := s.sink.closePool e } hbuilt

/-- With nothing in between this is how a client is closed whose parts these are. -/
theorem close_eq {ω : Type} {c : Cluster ω} (hresolver : s.resolver = c.resolver)
    (hbalancer : s.sink = c.balancer) (hbuilt : s.built = true) :
    (s.run (.resolver .close :: s.closings)).resolver = c.close.resolver ∧
      (s.run (.resolver .close :: s.closings)).sink = c.close.balancer := by
  have hclose : s.run (.resolver .close :: s.closings) =
      { s with resolver := s.resolver.close, sink := s.sink.close } := by
    change (s.step (.resolver .close)).run s.closings = _
    rw [step_close hbuilt]
    exact @run_closings { s with resolver := s.resolver.close } hbuilt s.sink.ready
  rw [hclose, hresolver, hbalancer]
  exact ⟨rfl, rfl⟩

/-! One action -/

/-- The resolver or the registry does something, or no more happens than what calls and closing do
to pools. -/
theorem stepping_or_carries (s : Upkeep) (a : Action) :
    (∃ b, a = .resolver b ∧ Stepping Balancer.sink s b (s.step a)) ∨
      ∃ b, s.step a = { s with sink := b } ∧ s.sink.Carries b := by
  have hcall (f : Balancer → Balancer) (hf : ∀ b : Balancer, b.Carries (f b)) :
      ∃ b, s.onBalancer f = { s with sink := b } ∧ s.sink.Carries b := by
    unfold onBalancer
    split
    · exact ⟨_, rfl, hf _⟩
    · exact ⟨_, rfl, .refl _⟩
  cases a with
  | resolver b =>
    refine (Following.stepping_or_eq Balancer.sink s b).imp (fun hs => ⟨b, rfl, hs⟩) fun hs => ?_
    exact ⟨s.sink, hs, .refl _⟩
  | pick call now draw => exact .inr (hcall _ fun b => b.carries_pick call now draw)
  | finish pick failed now => exact .inr (hcall _ fun b => b.carries_finish pick failed now)
  | pool k x => exact .inr (hcall _ fun b => b.carries_pool k x)

/-- A list is handed on, or the ready set stays and its pools go on. -/
theorem handed_or_carries (s : Upkeep) (a : Action) :
    (∃ instances, (s.step a).given = s.given ++ [instances] ∧
      (s.step a).sink = Balancer.sink.take s.sink (.ok instances)) ∨
    (s.step a).given = s.given ∧ s.sink.Carries (s.step a).sink := by
  rcases s.stepping_or_carries a with ⟨b, -, hs⟩ | ⟨b, hb, hcarries⟩
  · refine (Following.stepping_handed hs).imp_right ?_
    rintro ⟨hgiven, hsink | ⟨e, hsink⟩⟩
    · exact ⟨hgiven, hsink ▸ .refl _⟩
    · exact ⟨hgiven, hsink ▸ Balancer.carries_of_pools (.refl _) rfl⟩
  · rw [hb]
    exact .inr ⟨rfl, hcarries⟩

/-- Whatever is done, every endpoint keeps its pool. -/
theorem intact_step (h : s.sink.Intact) (a : Action) : (s.step a).sink.Intact ∧
    s.sink.GoesOn (s.step a).sink := by
  rcases s.handed_or_carries a with ⟨instances, -, hsink⟩ | ⟨-, hcarries⟩
  · rw [hsink]
    exact h.take instances
  · exact ⟨hcarries.intact h, hcarries.goesOn⟩

def Action.begins : Action → Bool
  | .resolver a => a.begins
  | _ => false

/-- A step adds no list to those that may still be handed on, but for the listing that it begins. -/
theorem length_given_step (s : Upkeep) (a : Action) :
    (s.step a).given.length + (s.step a).inProgress ≤ s.given.length +
      s.inProgress + a.begins.toNat := by
  rcases s.stepping_or_carries a with ⟨b, rfl, hs⟩ | ⟨b, hb, -⟩
  · exact Following.length_given_stepping hs
  · rw [hb]
    exact Nat.le_add_right _ _

theorem askedToEnd_step (h : s.AskedToEnd) (a : Action) : (s.step a).AskedToEnd := by
  rcases s.stepping_or_carries a with ⟨b, -, hs⟩ | ⟨b, hb, -⟩
  · exact Following.askedToEnd_stepping hs h
  · rw [hb]
    exact ⟨h.built, h.cancelled⟩

/-- Once the resolver has stopped, nothing more is handed on. -/
theorem stopped_step (h : s.resolver.phase = .stopped) (a : Action) :
    (s.step a).resolver.phase = .stopped ∧ (s.step a).given = s.given := by
  rcases s.stepping_or_carries a with ⟨b, -, hs⟩ | ⟨b, hb, -⟩
  · obtain ⟨hphase, hgiven, -⟩ := Following.stopped_stepping hs h
    exact ⟨hphase, hgiven⟩
  · rw [hb]
    exact ⟨h, rfl⟩

/-! Whole runs -/

theorem run_append (s : Upkeep) (first second : List Action) :
    s.run (first ++ second) = (s.run first).run second :=
  List.foldl_append

theorem intact_run (h : s.sink.Intact) (actions : List Action) :
    (s.run actions).sink.Intact ∧ s.sink.GoesOn (s.run actions).sink := by
  induction actions generalizing s with
  | nil => exact ⟨h, .refl _⟩
  | cons a rest ih =>
    obtain ⟨hstep, hgoes⟩ := intact_step h a
    obtain ⟨hrun, hrest⟩ := ih hstep
    exact ⟨hrun, hgoes.trans hrest⟩

/-- What was handed on stays the beginning of what is handed on, and the ready set changes by lists
only. -/
theorem given_run (s : Upkeep) (actions : List Action) : s.given <+: (s.run actions).given ∧
    ((s.run actions).given = s.given → s.sink.Carries (s.run actions).sink) := by
  induction actions generalizing s with
  | nil => exact ⟨List.prefix_refl _, fun _ => .refl _⟩
  | cons a rest ih =>
    obtain ⟨hbegin, hcarries⟩ := ih (s.step a)
    change s.given <+: ((s.step a).run rest).given ∧
      (((s.step a).run rest).given = s.given → s.sink.Carries ((s.step a).run rest).sink)
    rcases s.handed_or_carries a with ⟨instances, hgiven, -⟩ | ⟨hgiven, hstep⟩
    · rw [hgiven] at hbegin
      refine ⟨(List.prefix_append _ _).trans hbegin, fun hsame => ?_⟩
      have hle := hbegin.length_le
      rw [hsame, List.length_append, List.length_singleton] at hle
      omega
    · rw [hgiven] at hbegin hcarries
      exact ⟨hbegin, fun hsame => hstep.trans (hcarries hsame)⟩

/-- In a run at most the listing in progress is handed on, and those that are begun. -/
theorem length_given_run (s : Upkeep) (actions : List Action) : (s.run actions).given.length +
    (s.run actions).inProgress ≤ s.given.length + s.inProgress + actions.countP Action.begins := by
  induction actions generalizing s with
  | nil => exact Nat.le_refl _
  | cons a rest ih =>
    have hstep := s.length_given_step a
    have hrest := ih (s.step a)
    have hcount : (a :: rest).countP Action.begins = rest.countP
        Action.begins + a.begins.toNat := by
      rw [List.countP_cons]
      cases a.begins <;> rfl
    change ((s.step a).run rest).given.length + ((s.step a).run rest).inProgress ≤ _
    omega

theorem askedToEnd_run (h : s.AskedToEnd) (actions : List Action) : (s.run actions).AskedToEnd := by
  induction actions generalizing s with
  | nil => exact h
  | cons a rest ih => exact ih (askedToEnd_step h a)

theorem given_run_of_stopped (h : s.resolver.phase = .stopped) (actions : List Action) :
    (s.run actions).given = s.given := by
  induction actions generalizing s with
  | nil => rfl
  | cons a rest ih =>
    obtain ⟨hphase, hgiven⟩ := stopped_step h a
    exact (ih hphase).trans hgiven

/-! Closed pools -/

/-- The pool with this number is closed, and whoever has asked it since then was turned away. -/
def Refuses (s t : Upkeep) (k : Nat) : Prop :=
  ∃ p p' : Pool.State, s.sink.pools[k]? = some p ∧ t.sink.pools[k]? = some p' ∧ p'.closed = true ∧
    ∀ ticket, ticket ∉ p.asked → p'.TurnedAway ticket

/-- Nobody gets a connection any more: the ready set stays, and each of its pools refuses whoever
asks it. -/
structure StaysClosed (s t : Upkeep) : Prop where
  ready_eq : t.sink.ready = s.sink.ready
  refuses : ∀ e ∈ t.sink.ready, s.Refuses t (t.sink.poolOf e)

/-- A pool that is closed refuses whoever asks it for the rest of a run. -/
theorem refuses_run (h : s.sink.Intact) {p : Pool.State} (hp : s.sink.pools[k]? = some p)
    (hclosed : p.closed = true) (actions : List Action) : s.Refuses (s.run actions) k := by
  have hbalanced := h.balanced p (List.mem_of_getElem? hp)
  obtain ⟨steps, hsteps⟩ := (intact_run h actions).2 _ p hp
  refine ⟨p, _, hp, hsteps, (Pool.State.frame_run hbalanced steps).closed hclosed,
    fun ticket ht => ?_⟩
  have hfirst := Pool.State.turnedAway_of_not_asked hbalanced ht
  exact Pool.State.turnedAway_run hbalanced hclosed hfirst steps

/-- What is closed on the way is closed at the end. -/
theorem closed_run (h : s.sink.Intact) (hasked : s.AskedToEnd) {p : Pool.State}
    (hp : s.sink.pools[k]? = some p) (hmem : .pool k .close ∈ actions) :
    ∃ p', (s.run actions).sink.pools[k]? = some p' ∧
    p'.closed = true := by
  obtain ⟨first, second, rfl⟩ := List.append_of_mem hmem
  obtain ⟨hintact, hgoes⟩ := intact_run h first
  obtain ⟨steps, hsteps⟩ := hgoes k p hp
  have hbuilt := (askedToEnd_run hasked first).built
  rw [run_append]
  generalize s.run first = u at hintact hsteps hbuilt
  have hclose : (u.step (.pool k .close)).sink.pools[k]? = some (p.run steps).close := by
    rw [step_pool hbuilt]
    exact Balancer.getElem?_pool hsteps .close
  have hafter := (intact_step hintact (.pool k .close)).1
  exact (intact_run hafter second).2.closed hclose
    (hafter.balanced _ (List.mem_of_getElem? hclose)) rfl

/-- The pools that closing is to close are closed for good, and it counts from when they all are. -/
theorem refuses_of_closings (h : s.sink.Intact) (hasked : s.AskedToEnd)
    (hcloses : s.closings ⊆ during) :
    ∀ e ∈ s.sink.ready, (s.run during).Refuses ((s.run during).run after) (s.sink.poolOf e) := by
  intro e he
  obtain ⟨p, hp, -⟩ := h.exists_pool he
  obtain ⟨p', hp', hclosed⟩ := closed_run h hasked hp (hcloses (List.mem_map.mpr ⟨e, he, rfl⟩))
  exact refuses_run (intact_run h during).1 hp' hclosed after

/-- With no list handed on, these are still the pools of the ready set. -/
theorem staysClosed_of_given (h : s.sink.Intact) (hasked : s.AskedToEnd)
    (hcloses : s.closings ⊆ during) (hgiven : ((s.run during).run after).given = s.given) :
    (s.run during).StaysClosed ((s.run during).run after) := by
  obtain ⟨hfirst, hduring⟩ := s.given_run during
  obtain ⟨hsecond, hafter⟩ := (s.run during).given_run after
  have hsame : (s.run during).given = s.given := by
    rw [hgiven] at hsecond
    exact (hfirst.eq_of_length_le hsecond.length_le).symm
  have hduring := hduring hsame
  have hafter := hafter (hgiven.trans hsame.symm)
  refine ⟨hafter.ready_eq, fun e he => ?_⟩
  rw [hafter.poolOf_eq, hduring.poolOf_eq]
  exact refuses_of_closings h hasked hcloses e (hduring.ready_eq ▸ hafter.ready_eq ▸ he)

/-! The whole of closing -/

theorem given_run_of_asked (hbuilt : s.built = true) (actions : List Action) :
    s.given <+: ((s.step (.resolver .close)).run actions).given := by
  have h := ((s.step (.resolver .close)).given_run actions).1
  rw [step_close hbuilt] at h ⊢
  exact h

/-- Once asked to end, the resolver hands on at most the listing in progress and those that it still
begins. -/
theorem length_given_run_of_asked (hbuilt : s.built = true) (actions : List Action) :
    ((s.step (.resolver .close)).run actions).given.length ≤
      s.given.length + (s.inProgress + actions.countP Action.begins) := by
  have h := (s.step (.resolver .close)).length_given_run actions
  rw [step_close hbuilt] at h ⊢
  exact Nat.le_of_add_right_le (Nat.add_assoc _ _ _ ▸ h)

/-- What closing a client is good for. `before` is what happens until the client is closed,
`between` what happens until the set that is ready is looked up, `during` what happens while its
pools are closed, and `after` anything later; with nothing in between this is what closing does to a
client whose parts these are.

Lists that are handed on all the same come from a listing that was in progress, or from one that the
resolver begins although it was asked to end. Without them the client stays closed, and with them at
least the pools that were closed do. There are none if nothing was in progress and none is begun,
and none after the resolver has stopped, which it can do whenever it waits. -/
theorem closed_unless_handed_on {ω : Type} (registry : ListedRegistry) (service : String)
    (timeout : Duration) (mode : SelectMode) (filter : Option Selection.Filter)
    (config : PoolConfig) (before between during after : List Action)
    (hbuilt : ((new registry service timeout mode filter config).run before).built = true)
    (hcloses : closings ((((new registry service timeout mode filter config).run before).step
      (.resolver .close)).run between) ⊆ during) :
    let s := (new registry service timeout mode filter config).run before
    let seen := (s.step (.resolver .close)).run between
    let closed := seen.run during
    let t := closed.run after
    let n := s.inProgress + (between ++ (during ++ after)).countP Action.begins
    (∀ c : Cluster ω, s.resolver = c.resolver → s.sink = c.balancer →
        (s.run (.resolver .close :: s.closings)).resolver = c.close.resolver ∧
          (s.run (.resolver .close :: s.closings)).sink = c.close.balancer) ∧
      (s.given <+: t.given ∧ t.given.length ≤ s.given.length + n) ∧
      (n = 0 ∨ seen.resolver.phase = .stopped → t.given = seen.given) ∧
      (t.given = seen.given → closed.StaysClosed t) ∧
      (∀ e ∈ seen.sink.ready, closed.Refuses t (seen.sink.poolOf e)) ∧
      (t.resolver.phase = .waiting →
        (t.step (.resolver (.wake .cancelled))).resolver.phase = .stopped) := by
  intro s seen closed t n
  have hs : s.sink.Intact := by
    have hnew : (new registry service timeout mode filter config).sink.Intact :=
      Balancer.intact_ofMode mode filter config
    exact (intact_run hnew before).1
  have hseen : seen.sink.Intact := (intact_run (intact_step hs _).1 between).1
  have hasked : seen.AskedToEnd := askedToEnd_run (step_close hbuilt ▸ ⟨hbuilt, rfl⟩) between
  have hlater : t = seen.run (during ++ after) := (run_append _ _ _).symm
  have hall : t = (s.step (.resolver .close)).run (between ++ (during ++ after)) := by
    rw [run_append]
    exact hlater
  have hbefore : s.given <+: seen.given := given_run_of_asked hbuilt between
  have hafter : seen.given <+: t.given := hlater ▸ (seen.given_run (during ++ after)).1
  have hlength : t.given.length ≤ s.given.length + n := hall ▸ length_given_run_of_asked hbuilt _
  have hstops : t.AskedToEnd := hlater ▸ askedToEnd_run hasked (during ++ after)
  refine ⟨fun c hresolver hbalancer => close_eq hresolver hbalancer hbuilt,
    ⟨hbefore.trans hafter, hlength⟩, ?_,
    staysClosed_of_given hseen hasked hcloses, refuses_of_closings hseen hasked hcloses,
    hstops.stops⟩
  rintro (hn | hstopped)
  · -- no longer than before the client was closed, so no longer than since
    have hle := hbefore.length_le
    exact (hafter.eq_of_length_le (by omega)).symm
  · exact hlater ▸ given_run_of_stopped hstopped (during ++ after)

def single : Upkeep :=
  new { instances := [{ name := "svc", address := "h1:1" }] } "svc" .zero .roundRobin none {}

def learning : List Action :=
  [.resolver .subscribe, .resolver .begin, .resolver .read, .resolver .handOn,
  .resolver .complete, .resolver (.register { name := "svc", address := "h2:1" }),
  .resolver .take, .resolver .pass]

/-- The pool is closed, and the resolver ends as it was asked to, although an event waits. -/
def ending : List Action := [.pool 0 .close, .resolver (.wake .cancelled)]

/-- The client is closed while its resolver waits, and then someone calls. -/
theorem closed_unless_handed_on_at_rest :
    (single.run learning).built = true ∧
      closings (((single.run learning).step (.resolver .close)).run []) ⊆ ending ∧
      let closed := (((single.run learning).step (.resolver .close)).run []).run ending
      closed.sink.ready = [0] ∧
        closed.StaysClosed (closed.run [.pool 0 (.ask 7), .resolver .begin]) := by
  have hbuilt : (single.run learning).built = true := by decide +kernel
  have hcloses : closings (((single.run learning).step (.resolver .close)).run []) ⊆ ending := by
    have hready : (((single.run learning).step (.resolver .close)).run []).sink.ready = [0] := by
      decide +kernel
    have hpool : (((single.run learning).step (.resolver .close)).run []).sink.poolOf 0 = 0 := by
      decide +kernel
    rw [closings, hready, List.map_singleton, hpool]
    exact List.cons_subset_cons _ (List.nil_subset _)
  obtain ⟨-, -, hsame, hstays, -⟩ :=
    @closed_unless_handed_on Unit { instances := [{ name := "svc", address := "h1:1" }] }
      "svc" .zero .roundRobin none {} learning [] ending
      [.pool 0 (.ask 7), .resolver .begin] hbuilt hcloses
  exact ⟨hbuilt, hcloses, by decide +kernel, hstays (hsame (.inl (by decide +kernel)))⟩

/-- A listing is in progress when the client is closed. -/
def relisting : List Action := learning ++ [.resolver (.wake .event), .resolver .begin]

/-- The client is closed while the resolver lists. The list is handed on, and the instance that it
brings in has an open pool, over which a connection is opened. -/
theorem handed_on_after_closing :
    let seen := (single.run relisting).step (.resolver .close)
    let closed := seen.run seen.closings
    let t := closed.run [.resolver .read, .resolver .handOn, .pool 1 (.ask 7)]
    closed.given.length = 1 ∧ closed.sink.ready = [0] ∧ t.given.length = 2 ∧ t.sink.ready = [0, 1] ∧
      t.sink.isClosed 0 = true ∧ t.sink.isClosed 1 = false ∧
      (t.sink.pools[t.sink.poolOf 1]?.bind fun p => p.phase? 7) = some (.dialing 1) ∧
      ¬ closed.StaysClosed t := by
  intro seen closed t
  have hclosed : closed.sink.ready = [0] := by decide +kernel
  have hready : t.sink.ready = [0, 1] := by decide +kernel
  refine ⟨by decide +kernel, hclosed, by decide +kernel, hready, by decide +kernel,
    by decide +kernel, by decide +kernel, fun h => ?_⟩
  have hsame := h.ready_eq
  rw [hclosed, hready] at hsame
  cases hsame

end Upkeep
end RemoteCall
