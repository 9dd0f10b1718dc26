import RemoteCall.Cluster.Patience
import RemoteCall.Proofs.Balancer.LeastActive
import RemoteCall.Proofs.Cluster.Reach
import RemoteCall.Proofs.Connection.Call

/-! Calls to one instance, by the callbacks of their picks.

A call begins with a pick that nothing interrupts and ends with one run of the callback, with a
response, with an error or by being given up. In between it changes no counter; whatever else does
may go on meanwhile. -/
namespace RemoteCall

namespace Cluster
open Selection (Pick Selector Endpoint)
variable {ω : Type} {c c' c₁ : Cluster ω} {network : Network (Cluster ω)} {cancels : Cancels}
  {patience : Option Nat}
  {context : Context} {request : Request} {clock clock' : Clock}
  {outcome : Option (Result Response)} {p : Pick}
  {e : Nat}

/-- A call that nobody gives up. -/
theorem toOneWithin_none (network : Network (Cluster ω)) (cancels : Cancels) (context : Context)
    (request : Request) :
    toOneWithin network cancels none context request =
      (toOne network cancels context request).caught := by
  change Work.clock _ = Work.clock _
  refine congrArg Work.clock (funext fun now => congrArg (Work.act id) (funext fun c => ?_))
  dsimp only [Work.bind]
  cases c.pick now.mono context request with
  | error e => rfl
  | ok x =>
    obtain ⟨c₁, p⟩ := x
    refine congrArg (Work.act _) (funext fun _ => ?_)
    refine Eq.trans ?_ (Work.caught_caught_bind _ _).symm
    refine congrArg (Work.bind ((c₁.lines p.endpoint).call network cancels context request).caught)
      (funext fun outcome => ?_)
    cases outcome with
    | none => rfl
    | some outcome => rfl

/-! Runs -/

theorem run_toOneWithin_of_error {e : Error}
    (hpick : c.pick clock.mono context request = .error e) :
    (toOneWithin network cancels patience context request).run clock c =
    (some (some (.error e)), clock, c) := by
  rw [toOneWithin, Work.run_clock, Work.run_get_bind, hpick]
  rfl

/-- The callback runs when the call has ended, and it does not run otherwise. -/
theorem run_toOneWithin_of_ok (hpick : c.pick clock.mono context request = .ok (c₁, p)) :
    (toOneWithin network cancels patience context request).run clock c =
      match (((c₁.lines p.endpoint).call network cancels context request).within patience).run
        clock c₁ with
      | (some outcome, clock', c') =>
        (some outcome, clock', c'.finish clock'.mono p (outcome.elim true hasFailed))
      | (none, clock', c') => (none, clock', c') := by
  rw [toOneWithin, Work.run_clock, Work.run_get_bind, hpick]
  change (Work.run
    (((c₁.lines p.endpoint).call network cancels context request).within patience >>= _)
    clock c₁) = _
  cases hrun : (((c₁.lines p.endpoint).call network cancels context request).within patience).run
    clock c₁ with
  | mk outcome rest =>
    cases outcome with
    | none => exact Work.run_bind_of_none hrun
    | some outcome => exact Work.run_bind hrun

/-- A call that is given up at some time comes to an end. -/
theorem exists_run_toOneWithin (n : Nat) (clock : Clock) (c : Cluster ω) : ∃ outcome clock' c',
    (toOneWithin network cancels (some n) context request).run clock c =
      (some outcome, clock', c') := by
  cases hpick : c.pick clock.mono context request with
  | error e => exact ⟨_, _, _, run_toOneWithin_of_error hpick⟩
  | ok x =>
    obtain ⟨c₁, p⟩ := x
    obtain ⟨outcome, hsome⟩ :
      ∃ outcome, ((((c₁.lines p.endpoint).call network cancels context request).within
        (some n)).run clock c₁).1 = some outcome := by
      obtain ⟨o, clock', c', hlimit⟩ := Work.exists_run_limit_caught false n
        ((c₁.lines p.endpoint).call network cancels context request) clock c₁
      refine ⟨o.join, ?_⟩
      rw [Work.within, Work.run_map, hlimit, Option.map_some]
    rw [run_toOneWithin_of_ok hpick]
    generalize Work.run _ clock c₁ = r at hsome
    obtain ⟨first, clock', c'⟩ := r
    obtain rfl : first = some outcome := hsome
    exact ⟨_, _, _, rfl⟩

/-! Counters -/

/-- A call changes pools and wires. -/
theorem keeps_selector (σ : Selector) (hn : network.IsServed fun c => c.balancer.selector = σ) :
    (((c.lines e).call network cancels context request).within patience).Keeps
      (fun c => c.balancer.selector = σ) fun _ => True := by
  have hmove (m : Move) : ((c.lines e).move m).Keeps (fun c => c.balancer.selector = σ)
      fun _ => True := by
    refine Work.keeps_modify fun c₁ hc₁ => ?_
    change (setTraffic c₁ _ _).balancer.selector = σ
    unfold setTraffic
    split
    · exact hc₁
    · exact hc₁
  have hcall : ((c.lines e).call network cancels context request).Keeps
      (fun c => c.balancer.selector = σ)
      fun _ => True := Lines.keeps_call (fun m _ => hmove m) hn
  cases patience with
  | none => exact (Work.keeps_caught hcall).weaken fun _ _ => trivial
  | some n =>
    exact Work.keeps_bind (Work.keeps_limit (Work.keeps_caught hcall)) fun _ _ => .done _ trivial

/-- As long as a call is under way, it leaves the selector alone. -/
theorem selector_run_within
    (hn : network.IsServed fun c' => c'.balancer.selector = c.balancer.selector)
    (hrun : (((c.lines e).call network cancels context request).within patience).run clock c =
      (some outcome, clock', c')) : c'.balancer.selector = c.balancer.selector := by
  have hkeeps : (((c.lines e).call network cancels context request).within patience).Keeps
      (fun c' => c'.balancer.selector = c.balancer.selector) fun _ => True := keeps_selector _ hn
  have hkept := (Work.keeps_run (c := clock) hkeeps rfl).1
  rwa [hrun] at hkept

theorem selector_finish (c : Cluster ω) (now : Int) (p : Pick) (failed : Bool) :
    (c.finish now p failed).balancer.selector = c.balancer.selector.finish p failed now := rfl

/-- What a pick has counted is taken off again. -/
theorem finish_modify_enter (σ : Selector) (e generation : Nat) (failed : Bool) (now : Int) :
    (σ.modify e Endpoint.enter).finish ⟨⟨e, .active e⟩, generation⟩ failed now = σ := by
  have hid : Endpoint.leave ∘ Endpoint.enter = id := by
    funext x
    change { x with active := x.active + 1 - 1 } = x
    rw [UInt32.add_sub_cancel]
  change { σ with endpoints := (σ.endpoints.modify e Endpoint.enter).modify e Endpoint.leave } = σ
  rw [List.modify_modify_eq, hid, List.modify_id]

/-- A call picks as a pick does that nothing interrupts. -/
theorem pick_of_accounted {s : InFlight} (h : s.Accounted)
    (hselector : c.balancer.selector = s.balancer.selector) (now : Int) (context : Context)
    (request : Request) :
    match (s.candidates (callOf context request)).minOn? s.active with
    | some e => ∃ c₁, c.pick now context request = .ok
        (c₁, ⟨⟨e, .active e⟩, s.balancer.selector.generation⟩) ∧
        c₁.balancer.selector = (s.enter e s.balancer.selector.generation).balancer.selector
    | none => c.pick now context request = .error Selection.noConnection := by
  have hpick := h.pick_eq (callOf context request) now c.balancer.picks.draws.next.1
  rw [← hselector] at hpick
  split
  · rename_i e hbest
    rw [hbest] at hpick
    exact ⟨_, bind_eq_ok.mpr ⟨_, bind_eq_ok.mpr ⟨_, hpick, rfl⟩, by rw [hselector]; rfl⟩, rfl⟩
  · rename_i hbest
    rw [hbest] at hpick
    exact bind_eq_error.mpr (.inl (bind_eq_error.mpr (.inl hpick)))

/-- How a call to one instance ends that begins in `c` with the counters of `s`. -/
inductive EndsOnce (s : InFlight) (network : Network (Cluster ω)) (cancels : Cancels)
    (patience : Option Nat) (context : Context) (request : Request) (clock : Clock) (c : Cluster ω)
    (outcome : Option (Result Response)) (clock' : Clock) (c'' : Cluster ω) : Prop where
  | refused (candidates_eq : s.candidates (callOf context request) = [])
    (outcome_eq : outcome = some (.error Selection.noConnection)) (eq : c'' = c)
  /-- The call goes to the endpoint that was picked. Whatever goes on by the time it ends, it then
  runs the callback of its pick, which has not run before. If nothing else counts meanwhile, all
  counters are as they were. -/
  | ended (e : Nat) (c₁ c' : Cluster ω)
    (firstLeast : Selection.FirstLeast s.active (s.candidates (callOf context request)) e)
    (atOnce_eq : s.run (InFlight.atOnce (callOf context request)
      (s.candidates (callOf context request)).length) =
      s.enter e s.balancer.selector.generation)
    (selector_eq : c₁.balancer.selector =
      (s.enter e s.balancer.selector.generation).balancer.selector)
    (run_eq : (((c₁.lines e).call network cancels context request).within patience).run clock c₁ =
      (some outcome, clock', c'))
    (ending : ∀ t, (s.enter e s.balancer.selector.generation).LeadsTo s.dones.length t →
      c'.balancer.selector = t.balancer.selector →
        c''.balancer.selector =
          (t.step (ending s.dones.length outcome clock'.mono)).balancer.selector ∧
        t.ran.count s.dones.length = 0 ∧
        (t.step (ending s.dones.length outcome clock'.mono)).ran.count s.dones.length = 1)
    (quiet : (network.IsServed fun c => c.balancer.selector = c₁.balancer.selector) →
      c''.balancer.selector = c.balancer.selector)

theorem step_ending (s : InFlight) (k : Nat) (outcome : Option (Result Response)) (now : Int) :
    s.step (ending k outcome now) = s.runDone k (outcome.elim true hasFailed) now := by
  cases outcome with
  | none => rfl
  | some o => exact s.step_call k (hasFailed o) now

/-- However a call to one instance ends, the callback of its pick runs once. -/
theorem endsOnce {s : InFlight} (h : s.Accounted) (hidle : s.picking = none)
    (hselector : c.balancer.selector = s.balancer.selector) {c'' : Cluster ω}
    (hrun : (toOneWithin network cancels patience context request).run clock c =
      (some outcome, clock', c'')) :
    EndsOnce s network cancels patience context request clock c outcome clock' c'' := by
  have hpick := pick_of_accounted h hselector clock.mono context request
  split at hpick
  · rename_i e hbest
    obtain ⟨c₁, hpick, hentered⟩ := hpick
    have hhas : s.Has e := h.intact.known e (List.mem_filter.mp (List.minOn?_mem hbest)).1
    rw [run_toOneWithin_of_ok hpick] at hrun
    split at hrun
    · rename_i outcome' clock₁ c' hcall
      cases hrun
      have hatOnce := InFlight.run_atOnce hidle
        (Nat.le_refl (s.candidates (callOf context request)).length)
      rw [hbest] at hatOnce
      refine .ended e c₁ c' (Selection.firstLeast_of_minOn? hbest) hatOnce
        hentered hcall ?_ fun hn => ?_
      · rintro t ⟨xs, hxs, rfl⟩ hshown
        have ht := (h.enter hhas s.balancer.selector.generation).run xs
        -- the callback is the last one made, and it is pending for as long as nobody else ends it
        have hmade : (s.enter e s.balancer.selector.generation).dones[s.dones.length]? =
            some { pick := ⟨⟨e, .active e⟩, s.balancer.selector.generation⟩ } :=
            List.getElem?_concat_length
        have hd := InFlight.getElem?_run hmade hxs
        have hk := (List.getElem?_eq_some_iff.mp hd).1
        rw [step_ending, selector_finish, hshown]
        refine ⟨?_, ht.count_ran hd, ht.count_runDone hk⟩
        rw [InFlight.runDone_of_pending hd]
        rfl
      · rw [selector_finish, selector_run_within hn hcall, hentered, hselector]
        exact finish_modify_enter _ _ _ _ _
    · cases hrun
  · rename_i hbest
    rw [run_toOneWithin_of_error hpick] at hrun
    cases hrun
    exact .refused (InFlight.candidates_eq_nil hbest) rfl rfl

end Cluster

namespace InFlight

/-- Whatever order picks, callbacks and updates take effect in, as long as fewer than 2³² calls are
outstanding at each endpoint: counters are exact and each callback runs once. A pick falls on the
first candidate with the least counter, or, where calls end in its course, on one that has no more
calls than any candidate had. A call to one instance picks so, and however it ends, it ends its
callback with it. -/
theorem active_counts_exact (filter : Option Selection.Filter) (config : PoolConfig)
    (actions : List Action) :
    let s := (new filter config).run actions
    s.Bounded →
      s.Exact ∧
      (s.picking = none →
        (∀ call : Selection.Call, s.Picked (s.run (atOnce call (s.candidates call).length)) call ∧
          ∀ xs : List Action, (∀ x ∈ xs, x ≠ .settle) →
            s.Settled (s.run (.start call :: xs)) call) ∧
        ∀ (ω : Type) (network : Network (Cluster ω)) (cancels : Cancels) (context : Context)
          (request : Request),
          Cluster.toOneWithin network cancels none context request =
            (Cluster.toOne network cancels context request).caught ∧
          ∀ (clock : Clock) (c : Cluster ω), c.balancer.selector = s.balancer.selector →
            (∀ n, ∃ outcome clock' c',
              (Cluster.toOneWithin network cancels (some n) context request).run clock c =
                (some outcome, clock', c')) ∧
            ∀ patience outcome clock' c',
              (Cluster.toOneWithin network cancels patience context request).run clock c =
                (some outcome, clock', c') →
              Cluster.EndsOnce s network cancels patience context request clock c outcome
                clock' c') := by
  intro s hb
  have hs : s.Accounted := (accounted_new filter config).run actions
  refine ⟨hs.exact hb, fun hidle =>
    ⟨fun call => ⟨picked_atOnce hidle (Nat.le_refl _), fun xs hxs => ?_⟩,
    fun ω network cancels context request => ⟨?_, fun clock c hselector => ⟨fun n => ?_, ?_⟩⟩⟩⟩
  · exact hs.settled hb hidle hxs
  · exact Cluster.toOneWithin_none network cancels context request
  · exact Cluster.exists_run_toOneWithin n clock c
  · intro patience outcome clock' c' hrun
    exact Cluster.endsOnce hs hidle hselector hrun

/-- An instance gets another weight while a call over the other one goes on, which then ends in the
course of a pick. -/
theorem active_counts_exact_reweighted :
    let first : Instance := { name := "user-service", address := "127.0.0.1:9001" }
    let second : Instance := { name := "user-service", address := "127.0.0.1:9002" }
    let call : Selection.Call := ⟨"user-service", "Get", none⟩
    let actions : List Action := [.find, .update 0 [first, second]] ++ atOnce call 2 ++
      [.find, .update 1 [{ second with weight := some 5 }, first], .start call, .read,
        .look, .call 0 false 0, .read, .look, .settle]
    let s := (new none {}).run actions
    let c : Cluster Unit :=
      { Cluster.ofConfig "user-service" {} none () with balancer := s.balancer }
    let network : Network (Cluster Unit) := .down ⟨.network, "refused"⟩
    s.Bounded ∧ s.picking = none ∧ s.candidates call = [2, 0] ∧
      (List.range 3).map s.active = [0, 0, 1] ∧
      s.ran = [0] ∧ s.Exact ∧ s.Picked (s.run (atOnce call 2)) call ∧
      (s.run (atOnce call 2)).active 0 = 1 ∧
      s.Settled (s.run [.start call, .read, .look, .drop 1 0, .read, .look]) call ∧
      ∃ outcome clock' c', (Cluster.toOneWithin network (fun _ => none) (some 5) {}
          (Request.new "user-service" "Get")).run ⟨0, 0⟩ c = (some outcome, clock', c') ∧
        Cluster.EndsOnce s network (fun _ => none) (some 5) {}
          (Request.new "user-service" "Get") ⟨0, 0⟩ c outcome clock' c' := by
  intro first second call actions s c network
  have hb : s.Bounded := bounded_of_length (by decide +kernel)
  have hidle : s.picking = none := by decide +kernel
  have hcandidates : s.candidates call = [2, 0] := by decide +kernel
  -- for any balancer, so that nothing is run to find the same one on both sides
  have hselector (b : Balancer) :
      ({ Cluster.ofConfig "user-service" {} none () with balancer := b } :
      Cluster Unit).balancer.selector = b.selector := rfl
  obtain ⟨hexact, hidle'⟩ := active_counts_exact none {} actions hb
  obtain ⟨hpicks, hcalls⟩ := hidle' hidle
  obtain ⟨hpicked, hsettled⟩ := hpicks call
  obtain ⟨-, hruns⟩ := hcalls Unit network (fun _ => none) {} (Request.new "user-service" "Get")
  obtain ⟨hends, honce⟩ := hruns ⟨0, 0⟩ c (hselector s.balancer)
  obtain ⟨outcome, clock', c', hrun⟩ := hends 5
  have hlength : (s.candidates call).length = 2 := congrArg List.length hcandidates
  change s.Picked (s.run (atOnce call (s.candidates call).length)) call at hpicked
  rw [hlength] at hpicked
  exact ⟨hb, hidle, hcandidates, by decide +kernel, by decide +kernel, hexact, hpicked,
    by decide +kernel, hsettled _ (by decide), outcome, clock', c', hrun, honce _ _ _ _ hrun⟩

end InFlight
end RemoteCall
