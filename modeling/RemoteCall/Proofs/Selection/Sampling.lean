import RemoteCall.Proofs.Selection.Latency
import RemoteCall.Selection.Sampling

/-! Averages of endpoints whose calls fail at once.

A failure counts as twice the average that its callback has looked at. By the time the sample goes
into the average, other samples may have taken that higher, and then the failure can lower it. It
does not bring it below twice what it was before: while nothing but failures goes into an average,
each of them moves it up until it is near to double. -/
namespace RemoteCall.Selection.Sampling
variable {s : Sampling} {e average sample low cap base ended : Nat} {steps : List Step}

/-! Nothing in between -/

theorem run_cons (s : Sampling) (a : Step) (rest : List Step) :
    s.run (a :: rest) = (s.step a).run rest := rfl

theorem run_append (s : Sampling) (steps more : List Step) :
    s.run (steps ++ more) = (s.run steps).run more :=
  List.foldl_append

/-- A sample that is recorded at once is what a selector learns from the end of a call. -/
theorem record_take (s : Selector) (p : Pick) (failed : Bool) (now : Int) :
    (({ selector := s } : Sampling).step (.take p failed now)).step (.record 0) =
      { selector := s.finish p failed now } := by
  cases hnotice : p.choice.notice with
  | latency x start =>
    have hfinish : s.finish p failed now = s.modify x fun y =>
        y.observe ((now - start) / 1000).toNat failed := by
      rw [Selector.finish, hnotice]
    have hrecord : s.modify x (fun y => y.record (latencySample (s.endpoint x).latency.toNat
        ((now - start) / 1000).toNat failed)) = s.modify x fun y =>
        y.observe ((now - start) / 1000).toNat failed := by
      refine congrArg (fun endpoints => { s with endpoints }) (List.ext_getElem? fun j => ?_)
      rw [List.getElem?_modify, List.getElem?_modify]
      -- the average that was looked at is the one that the sample goes into
      by_cases hj : x = j
      · subst hj
        cases hx : s.endpoints[x]? with
        | none => rfl
        | some y =>
          have hy : s.endpoint x = y := by rw [Selector.endpoint, hx, Option.getD_some]
          rw [hy]
          rfl
      · simp [hj]
    simp only [step, Selector.sample?, hnotice, List.nil_append, List.getElem?_cons_zero,
      List.eraseIdx_cons_zero, hrecord, hfinish]
  | none => simp only [step, Selector.sample?, hnotice, List.getElem?_nil]
  | active x => simp only [step, Selector.sample?, hnotice, List.getElem?_nil]
  | weight x => simp only [step, Selector.sample?, hnotice, List.getElem?_nil]

/-- Without interruptions a selector goes on as if samples were taken and recorded in one. -/
theorem run_uninterrupted (s : Selector) (actions : List Selection.Action) :
    ({ selector := s } : Sampling).run (actions.flatMap uninterrupted) =
      { selector := s.run actions } := by
  induction actions generalizing s with
  | nil => rfl
  | cons a rest ih =>
    rw [List.flatMap_cons, run_append, Selector.run_cons, ← ih]
    cases a with
    | pick call now draw => rfl
    | finish p failed now =>
      exact congrArg (fun t => run t (rest.flatMap uninterrupted)) (record_take s p failed now)

/-! Failures at once -/

/-- Samples that are higher than a cap take an average up to it step by step, and keep it there. -/
theorem min_succ_le_movingAverage (hlow : min low cap ≤ average) (hsample : cap + 3 ≤ sample) :
    min (low + 1) cap ≤ movingAverage average sample := by
  unfold movingAverage
  omega

/-- How far failures that are recorded in any order are sure to take an average. -/
def reach (average : Nat) : Nat := min (2 * average - 3) (UInt64.size - 4)

/-- A failure counts as more than failures are sure to reach. -/
theorem reach_lt_latencySample (hbase : 4 ≤ base) (hlow : min base (reach base) ≤ average)
    (elapsed : Nat) : reach base + 3 ≤ latencySample average elapsed true := by
  have hsize : UInt64.size = 2 ^ 64 := rfl
  change _ ≤ min (max elapsed (2 * average)) (UInt64.size - 1)
  unfold reach at *
  omega

def Step.action? : Step → Option Selection.Action
  | .pick call now draw => some (.pick call now draw)
  | .take p failed now => some (.finish p failed now)
  | .record _ => none

def left (s : Sampling) (e : Nat) : Nat := s.pending.countP fun x => x.endpoint == e

/-- The average of an endpoint from some base on, at which as many calls have ended, all of them
failures. -/
structure Growing (s : Sampling) (e base ended : Nat) : Prop where
  known : e < s.selector.endpoints.length
  high : ∀ x ∈ s.pending, x.endpoint = e → reach base + 3 ≤ x.micros ∧ x.micros ≤ UInt64.size - 1
  left_le : s.left e ≤ ended
  grown : min (base + (ended - s.left e)) (reach base) ≤ (s.selector.endpoint e).latency.toNat

theorem Growing.ofSelector (h : s.Growing e base ended) {selector : Selector}
    (hlength : selector.endpoints.length = s.selector.endpoints.length)
    (hlatency : (selector.endpoint e).latency = (s.selector.endpoint e).latency) :
    Growing { s with selector } e base ended :=
  ⟨hlength ▸ h.known, h.high, h.left_le, hlatency ▸ h.grown⟩

/-- Whatever goes into another average leaves this one alone. -/
theorem Growing.action (h : s.Growing e base ended) {a : Selection.Action}
    (ha : a.timedAt e = false) :
    Growing { s with selector := s.selector.step a } e base ended :=
  h.ofSelector (Selector.kept_step s.selector a).length_eq (Selector.latency_step_of_untimed ha)

theorem left_take (s : Sampling) (e : Nat) (x : Sample) :
    ({ s with pending := s.pending ++ [x] } : Sampling).left e = s.left e +
    if x.endpoint = e then 1 else 0 := by
  rw [left, left, List.countP_append, List.countP_singleton]
  simp only [beq_iff_eq]

/-- A callback takes the sample of a call that has failed. -/
theorem Growing.take (h : s.Growing e base ended) (hbase : 4 ≤ base) {p : Pick} {start : Int}
    (hnotice : p.choice.notice = .latency e start) (now : Int) :
    (s.step (.take p true now)).Growing e base (ended + 1) := by
  have hsample : s.selector.sample? p true now =
      some ⟨e, latencySample (s.selector.endpoint e).latency.toNat
        ((now - start) / 1000).toNat true⟩ := by
    rw [Selector.sample?, hnotice]
  have hstep : s.step (.take p true now) =
      { s with
        pending := s.pending ++ [⟨e, latencySample (s.selector.endpoint e).latency.toNat
          ((now - start) / 1000).toNat true⟩] } := by
    rw [step, hsample]
  have hgrown := h.grown
  have hleft := h.left_le
  rw [hstep]
  refine ⟨h.known, fun x hx hxe => ?_, ?_, ?_⟩
  · obtain hx | hx := List.mem_append.mp hx
    · exact h.high x hx hxe
    · obtain rfl := List.mem_singleton.mp hx
      refine ⟨reach_lt_latencySample hbase ?_ _, Nat.min_le_right _ _⟩
      omega
  · rw [left_take, if_pos rfl]
    omega
  · rw [left_take, if_pos rfl, Nat.add_sub_add_right]
    exact hgrown

/-- The sample of a call at another endpoint is taken. -/
theorem Growing.take_of_ne (h : s.Growing e base ended) {x : Sample} (hne : x.endpoint ≠ e) :
    Growing { s with pending := s.pending ++ [x] } e base ended := by
  have hleft := left_take s e x
  rw [if_neg hne, Nat.add_zero] at hleft
  refine ⟨h.known, fun y hy hye => ?_, hleft ▸ h.left_le, hleft ▸ h.grown⟩
  obtain hy | hy := List.mem_append.mp hy
  · exact h.high y hy hye
  · obtain rfl := List.mem_singleton.mp hy
    exact absurd hye hne

/-- A sample goes into its average. -/
theorem Growing.record (h : s.Growing e base ended) (k : Nat) :
    (s.step (.record k)).Growing e base ended := by
  rw [step]
  cases hk : s.pending[k]? with
  | none => exact h
  | some x =>
    obtain ⟨hlt, rfl⟩ := List.getElem?_eq_some_iff.mp hk
    have hmem := List.getElem_mem hlt
    have hleft : s.left e = (s.pending.eraseIdx k).countP (fun x => x.endpoint == e) +
        if s.pending[k].endpoint = e then 1 else 0 := by
      rw [left, ← (List.getElem_cons_eraseIdx_perm hlt).countP_eq, List.countP_cons]
      simp only [beq_iff_eq]
    have hhigh : ∀ y ∈ s.pending.eraseIdx k, y.endpoint = e → reach base + 3 ≤ y.micros ∧
        y.micros ≤ UInt64.size - 1 := fun y hy => h.high y (List.mem_of_mem_eraseIdx hy)
    have hlength (f : Endpoint → Endpoint) (i : Nat) :
        (s.selector.modify i f).endpoints.length = s.selector.endpoints.length :=
        List.length_modify _ _ _
    have hle := h.left_le
    have hgrown := h.grown
    by_cases hxe : s.pending[k].endpoint = e
    · -- it is one of the failures
      obtain ⟨hsample, hfits⟩ := h.high _ hmem hxe
      rw [if_pos hxe] at hleft
      refine ⟨(hlength _ _).symm ▸ h.known, hhigh, ?_, ?_⟩
      · change (s.pending.eraseIdx k).countP _ ≤ ended
        omega
      · change min (base + (ended - (s.pending.eraseIdx k).countP _)) _ ≤ _
        dsimp only
        rw [hxe, Selector.endpoint_modify_self h.known, toNat_latency_record _ hfits]
        have hnext := min_succ_le_movingAverage hgrown hsample
        have hcount : base + (ended - (s.pending.eraseIdx k).countP fun x => x.endpoint == e) =
            base + (ended - s.left e) + 1 := by omega
        rwa [hcount]
    · rw [if_neg hxe, Nat.add_zero] at hleft
      refine ⟨(hlength _ _).symm ▸ h.known, hhigh, ?_, ?_⟩
      · exact hleft.symm.le.trans hle
      · change min (base + (ended - (s.pending.eraseIdx k).countP _)) _ ≤ _
        rw [← hleft]
        dsimp only
        rw [Selector.endpoint_modify_ne hxe]
        exact hgrown

def Step.timedAt (e : Nat) (a : Step) : Bool := a.action?.any (Selection.Action.timedAt e)

/-- Every step keeps an average growing, as long as all calls that count for it fail. -/
theorem Growing.step (h : s.Growing e base ended) (hbase : 4 ≤ base) {a : Step}
    (hfail : a.timedAt e = true → a.action?.any Selection.Action.succeeds = false) :
    (s.step a).Growing e base (ended + if a.timedAt e then 1 else 0) := by
  cases a with
  | pick call now draw => exact h.action rfl
  | record k => exact h.record k
  | take p failed now =>
    cases htimed : (Step.take p failed now).timedAt e with
    | true =>
      have htimedAt : (Action.finish p failed now).timedAt e = true := htimed
      obtain ⟨start, hnotice⟩ := Action.notice_of_timed htimedAt
      obtain rfl : failed = true := by simpa [Step.action?, Action.succeeds] using hfail htimed
      exact h.take hbase hnotice now
    | false =>
      rw [Sampling.step]
      cases hsample : s.selector.sample? p failed now with
      | none => exact h.action (a := .finish p failed now) htimed
      | some x =>
        refine h.take_of_ne ?_
        unfold Selector.sample? at hsample
        split at hsample
        · rename_i x' start hnotice
          cases hsample
          simpa [Step.timedAt, Step.action?, Action.timedAt, hnotice] using htimed
        · cases hsample

theorem Growing.run (h : s.Growing e base ended) (hbase : 4 ≤ base)
    (hfail : ∀ a ∈ steps, a.timedAt e = true → a.action?.any Selection.Action.succeeds = false) :
    (s.run steps).Growing e base (ended + steps.countP (Step.timedAt e)) := by
  induction steps generalizing s ended with
  | nil => exact h
  | cons a rest ih =>
    obtain ⟨ha, hrest⟩ := List.forall_mem_cons.mp hfail
    rw [run_cons, List.countP_cons, Nat.add_comm (rest.countP _), ← Nat.add_assoc]
    exact ih (h.step hbase ha) hrest

/-! Picks -/

theorem picker_record (s : Sampling) (k : Nat) :
    (s.step (.record k)).selector.picker = s.selector.picker := by
  rw [step]
  cases s.pending[k]? with
  | none => rfl
  | some x => rfl

theorem step_fastest {ready : List Nat} (hp : s.selector.picker = .fastest ready) (a : Step) :
    (s.step a).selector.picker = .fastest ready := by
  cases a with
  | pick call now draw => exact Selector.step_fastest hp (.pick call now draw)
  | record k => exact (picker_record s k).trans hp
  | take p failed now =>
    rw [step]
    split
    · exact hp
    · exact Selector.step_fastest hp (.finish p failed now)

theorem run_fastest {ready : List Nat} (hp : s.selector.picker = .fastest ready)
    (steps : List Step) : (s.run steps).selector.picker = .fastest ready := by
  induction steps generalizing s with
  | nil => exact hp
  | cons a rest ih => exact ih (step_fastest hp a)

/-- Whatever is picked and whatever other calls end meanwhile: where no sample waits for an endpoint
and then only failures do, those that have been recorded take its average up by one microsecond each
at least, until it is near to double what it was or to the ceiling. A failure that is recorded late
may lower the average, but not below that. So the endpoint is not picked beside a candidate that the
average has passed by then. -/
theorem slowed_by_failures_at_a_time (s : Sampling) (e : Nat) (he : e < s.selector.endpoints.length)
    (hleft : s.left e = 0) (steps : List Step)
    (hfail : ∀ a ∈ steps, a.timedAt e = true → a.action?.any Selection.Action.succeeds = false) :
    let average := (s.selector.endpoint e).latency.toNat
    let after := s.run steps
    let recorded := steps.countP (Step.timedAt e) - after.left e
    4 ≤ average →
      min (average + recorded) (reach average) ≤ (after.selector.endpoint e).latency.toNat ∧
      ∀ ready other call now draw, s.selector.picker = .fastest ready → other ∈ ready →
        after.selector.admits call other = true →
        (after.selector.endpoint other).latency.toNat < min (average + recorded) (reach average) →
        ∃ pick, after.selector.pick call now draw = .ok (after.selector, pick) ∧
        pick.endpoint ≠ e := by
  intro average after recorded hlow
  have hstart : s.Growing e average 0 := by
    refine ⟨he, fun x hx hxe => ?_, hleft.le, ?_⟩
    · exact absurd (List.countP_eq_zero.mp hleft x hx) (by simp [hxe])
    · rw [Nat.zero_sub, Nat.add_zero]
      exact Nat.min_le_left _ _
  have hgrown := (hstart.run hlow hfail).grown
  rw [Nat.zero_add] at hgrown
  refine ⟨hgrown, fun ready other call now draw hp hother hadmits hahead => ?_⟩
  have hfastest : after.selector.picker = .fastest ready := run_fastest hp steps
  exact Selector.pick_of_lt hfastest hother hadmits
    (UInt64.lt_iff_toNat_lt.mpr (Nat.lt_of_lt_of_le hahead hgrown)) now draw

/-- Two calls fail at once while the average is ten microseconds, and a third one fails after a
millisecond. The sample of the second one comes late and takes the average down again, but not to
what the first failures were sure to reach. -/
example :
    let inst : Instance := { name := "svc", address := "h" }
    let s : Sampling := { selector :=
      { Selector.ofMode .fastest none with endpoints := [⟨inst, 0, 0, 10⟩] } }
    let picked : Pick := ⟨⟨0, .latency 0 0⟩, 0⟩
    let late := s.run [.take picked true 0, .take picked true 0,
      .take picked true 1000000, .record 0, .record 1]
    (late.selector.endpoint 0).latency = 309 ∧
      ((late.step (.record 0)).selector.endpoint 0).latency = 222 ∧ reach 10 = 17 := by
  decide +kernel

end RemoteCall.Selection.Sampling
