import RemoteCall.Proofs.Selection.Action

/-! Averages of endpoints whose calls fail.

A call that failed counts as twice the average at least, and as three tenths of the next one. What
the average gains by it is rounded down: nothing where three tenths of the average are less than a
microsecond, nor where the ceiling of 64 bits leaves less room than that. In between every failure
counts. -/
namespace RemoteCall.Selection
variable {s : Selector} {x : Endpoint} {average sample most elapsed e i : Nat}
  {failed : Bool} {now start : Int}

/-! Averages -/

/-- The average moves up as soon as a sample exceeds it by four. -/
theorem lt_movingAverage_iff : average < movingAverage average sample ↔ average + 4 ≤ sample := by
  unfold movingAverage
  omega

theorem le_movingAverage (h : average ≤ sample) : average ≤ movingAverage average sample := by
  unfold movingAverage
  omega

theorem movingAverage_le (ha : average ≤ most) (hs : sample ≤ most) :
    movingAverage average sample ≤ most := by
  unfold movingAverage
  omega

theorem toNat_latency_record (x : Endpoint) (hsample : sample ≤ UInt64.size - 1) :
    (x.record sample).latency.toNat = movingAverage x.latency.toNat sample := by
  have hmost : movingAverage x.latency.toNat sample ≤ UInt64.size - 1 :=
    movingAverage_le (Nat.le_pred_of_lt x.latency.toNat_lt) hsample
  have hsize : UInt64.size = 2 ^ 64 := rfl
  exact (UInt64.toNat_ofNat' ..).trans (Nat.mod_eq_of_lt (by omega))

/-- A call moves the average of its endpoint by the sample that it counts as. -/
theorem toNat_latency_observe (x : Endpoint) (elapsed : Nat) (failed : Bool) :
    (x.observe elapsed failed).latency.toNat =
      movingAverage x.latency.toNat (latencySample x.latency.toNat elapsed failed) :=
  toNat_latency_record x (Nat.min_le_right _ _)

/-- No failure lowers the average. It moves up unless it is below four microseconds and the call was
no slower than that either, or less than four below the ceiling. -/
theorem latency_observe_failed (x : Endpoint) (elapsed : Nat) :
    x.latency ≤ (x.observe elapsed true).latency ∧
      (x.latency < (x.observe elapsed true).latency ↔
        x.latency.toNat + 4 < UInt64.size ∧
        (4 ≤ x.latency.toNat ∨ x.latency.toNat + 4 ≤ elapsed)) := by
  have hlt := x.latency.toNat_lt
  have hsize : UInt64.size = 2 ^ 64 := rfl
  have hsample : latencySample x.latency.toNat elapsed true =
      min (max elapsed (2 * x.latency.toNat)) (UInt64.size - 1) := rfl
  rw [UInt64.le_iff_toNat_le, UInt64.lt_iff_toNat_lt, toNat_latency_observe,
    lt_movingAverage_iff, hsample]
  refine ⟨le_movingAverage ?_, ?_⟩
  · omega
  · omega

/-! Runs -/

/-- A call ends of which the endpoint learns how long it took. -/
def Action.timedAt (e : Nat) : Action → Bool
  | .pick .. => false
  | .finish p _ _ =>
    match p.choice.notice with
    | .latency x _ => x == e
    | _ => false

theorem Action.notice_of_timed {p : Pick} (h : (Action.finish p failed now).timedAt e = true) :
    ∃ start, p.choice.notice = .latency e start := by
  unfold timedAt at h
  cases hnotice : p.choice.notice with
  | latency x start =>
    simp only [hnotice] at h
    exact ⟨start, by rw [eq_of_beq h]⟩
  | none => simp [hnotice] at h
  | active x => simp [hnotice] at h
  | weight x => simp [hnotice] at h

namespace Selector
variable {ready : List Nat} {actions : List Action} {a : Action} {call : Call} {draw : Nat}
  {f : Endpoint → Endpoint}

/-- What is learnt of other things than response times leaves the average alone. -/
theorem latency_modify (h : ∀ x, (f x).latency = x.latency) :
    ((s.modify i f).endpoint e).latency = (s.endpoint e).latency := by
  unfold modify endpoint
  rw [List.getElem?_modify]
  cases s.endpoints[e]? with
  | none => rfl
  | some x =>
    by_cases hi : i = e
    · simpa [hi] using h x
    · simp [hi]

theorem latency_finish_of_timed {pick : Pick} (h : pick.choice.notice = .latency e start)
    (he : e < s.endpoints.length) (failed : Bool) (now : Int) :
    (s.finish pick failed now).endpoint e =
      (s.endpoint e).observe ((now - start) / 1000).toNat failed := by
  rw [finish, h]
  exact endpoint_modify_self he

/-- The average moves only when a call ends of which the endpoint learns. -/
theorem latency_step_of_untimed (h : a.timedAt e = false) :
    ((s.step a).endpoint e).latency = (s.endpoint e).latency := by
  cases a with
  | finish pick failed now =>
    change ((s.finish pick failed now).endpoint e).latency = _
    unfold finish
    split
    · rfl
    · exact latency_modify fun _ => rfl
    · rename_i x start hnotice
      have hne : x ≠ e := by simpa [Action.timedAt, hnotice] using h
      rw [endpoint_modify_ne hne]
    · split
      · split <;> rfl
      · rfl
  | pick call now draw =>
    cases hpick : s.pick call now draw with
    | error err => rw [step_of_error hpick]
    | ok x =>
      rw [step_of_ok hpick]
      obtain ⟨⟨picker, choice⟩, -, hx⟩ := bind_eq_ok.mp hpick
      obtain ⟨hs, -⟩ := Prod.mk.inj (Except.ok.inj hx)
      rw [← hs]
      split
      · exact latency_modify fun _ => rfl
      · rfl

/-- As long as all calls fail that end at an endpoint, its average grows by one with each of them at
least, from four microseconds on up to the ceiling. -/
theorem latency_run_failing (he : e < s.endpoints.length)
    (hfail : ∀ a ∈ actions, a.timedAt e = true → a.succeeds = false)
    (hlow : 4 ≤ (s.endpoint e).latency.toNat) :
    min ((s.endpoint e).latency.toNat + actions.countP (Action.timedAt e)) (UInt64.size - 4) ≤
      ((s.run actions).endpoint e).latency.toNat := by
  -- on the run; an average of four or more stays so, which makes every failure count
  induction actions generalizing s with
  | nil => exact Nat.min_le_left _ _
  | cons a rest ih =>
    have he' : e < (s.step a).endpoints.length := by rwa [(kept_step s a).length_eq]
    have hrest := fun b hb => hfail b (List.mem_cons_of_mem a hb)
    rw [run_cons]
    cases ha : a.timedAt e with
    | false =>
      have hsame := latency_step_of_untimed (s := s) ha
      rw [List.countP_cons_of_neg (by simp [ha]), ← hsame]
      exact ih he' hrest (by rwa [hsame])
    | true =>
      have hfailed := hfail a List.mem_cons_self ha
      cases a with
      | pick call now draw => cases ha
      | finish pick failed now =>
        obtain rfl : failed = true := by simpa [Action.succeeds] using hfailed
        obtain ⟨start, hnotice⟩ := Action.notice_of_timed ha
        have hseen : (s.step (.finish pick true now)).endpoint e = _ :=
          latency_finish_of_timed hnotice he true now
        obtain ⟨hle, hlt⟩ := latency_observe_failed (s.endpoint e) ((now - start) / 1000).toNat
        rw [← hseen, UInt64.le_iff_toNat_le] at hle
        rw [← hseen, UInt64.lt_iff_toNat_lt] at hlt
        have hgrown := ih he' hrest (hlow.trans hle)
        rw [List.countP_cons_of_pos ha]
        by_cases hroom : (s.endpoint e).latency.toNat + 4 < UInt64.size
        · have hmore := hlt.mpr ⟨hroom, .inl hlow⟩
          omega
        · omega

/-! Picks -/

/-- A pick by response time falls on the first admitted endpoint with the least average. -/
theorem pick_fastest (hp : s.picker = .fastest ready) (call : Call) (now : Int) (draw : Nat) :
    s.pick call now draw = match (ready.filter (s.admits call)).minOn? fun e =>
    (s.endpoint e).latency with
      | some e => .ok (s, ⟨⟨e, .latency e now⟩, s.generation⟩)
      | none => .error noConnection := by
  unfold pick
  rw [hp]
  simp only [Picker.pick]
  change (match (ready.filter (s.admits call)).minOn? (fun e => (s.endpoint e).latency) with
    | some e => _
    | none => _ : Result _) >>= _ = _
  cases (ready.filter (s.admits call)).minOn? fun e => (s.endpoint e).latency with
  | none => rfl
  | some e =>
    rw [← hp]
    rfl

theorem step_fastest (hp : s.picker = .fastest ready) (a : Action) :
    (s.step a).picker = .fastest ready := by
  cases a with
  | finish pick failed now =>
    change (s.finish pick failed now).picker = _
    unfold finish
    split
    · exact hp
    · exact hp
    · exact hp
    · rw [hp]
      exact hp
  | pick call now draw =>
    have hpick := pick_fastest hp call now draw
    split at hpick
    · rwa [step_of_ok hpick]
    · rwa [step_of_error hpick]

theorem run_fastest (hp : s.picker = .fastest ready) (actions : List Action) :
    (s.run actions).picker = .fastest ready := by
  induction actions generalizing s with
  | nil => exact hp
  | cons a rest ih => exact ih (step_fastest hp a)

/-- Whoever has a larger average than another candidate is not picked. -/
theorem pick_of_lt (hp : s.picker = .fastest ready) {other : Nat} (hother : other ∈ ready)
    (hadmits : s.admits call other = true)
    (hlt : (s.endpoint other).latency < (s.endpoint e).latency) (now : Int) (draw : Nat) :
    ∃ pick, s.pick call now draw = .ok (s, pick) ∧ pick.endpoint ≠ e := by
  have hpick := pick_fastest hp call now draw
  have hmem : other ∈ ready.filter (s.admits call) := List.mem_filter.mpr ⟨hother, hadmits⟩
  have hle := List.apply_get_minOn?_le_of_mem (f := fun e => (s.endpoint e).latency) hmem
  split at hpick
  · rename_i best hbest
    refine ⟨_, hpick, ?_⟩
    rintro rfl
    simp only [hbest, Option.get_some] at hle
    exact absurd hlt (UInt64.not_lt.mpr hle)
  · rename_i hnone
    have hsome := List.isSome_minOn?_of_mem (f := fun e => (s.endpoint e).latency) hmem
    rw [hnone] at hsome
    cases hsome

/-- Whatever calls were sent to an endpoint and however they ended: no failure lowers its average,
and a failure moves it up from four microseconds on, however quick it is, up to four below the
ceiling. So once as many of its calls have failed as another candidate's average was ahead, and one
more, and none succeeded, it is not picked beside that one. -/
theorem slowed_by_failures (s : Selector) (hmode : s.mode = .fastest) (ready : List Nat)
    (history : List Action) (e : Nat) (he : e < s.endpoints.length) :
    let before := (s.rebuild ready).run history
    let average := (before.endpoint e).latency.toNat
    (∀ (pick : Pick) (start now : Int), pick.choice.notice = .latency e start →
      average ≤ ((before.finish pick true now).endpoint e).latency.toNat ∧
      (average < ((before.finish pick true now).endpoint e).latency.toNat ↔
        average + 4 < 2 ^ 64 ∧ (4 ≤ average ∨ average + 4 ≤ ((now - start) / 1000).toNat))) ∧
      (4 ≤ average → ∀ actions : List Action,
        (∀ a ∈ actions, a.timedAt e = true → a.succeeds = false) →
        ∀ other ∈ ready, ∀ call, s.admits call other = true →
          ((before.run actions).endpoint other).latency.toNat + 4 < 2 ^ 64 →
          ((before.run actions).endpoint other).latency.toNat <
            average + actions.countP (Action.timedAt e) →
          ∀ now draw, ∃ pick,
            (before.run actions).pick call now draw = .ok (before.run actions, pick) ∧
              pick.endpoint ≠ e) := by
  intro before average
  have hsize : UInt64.size = 2 ^ 64 := rfl
  have hbuilt : (s.rebuild ready).picker = .fastest ready := by
    rw [rebuild, hmode]
    rfl
  have hkept : (s.rebuild ready).Kept before := kept_run (s.rebuild ready) history
  have he' : e < before.endpoints.length := hkept.length_eq.symm ▸ he
  refine ⟨fun pick start now hnotice => ?_,
    fun hlow actions hfail other hother call hadmits hroom hahead now draw => ?_⟩
  · obtain ⟨hle, hlt⟩ := latency_observe_failed (before.endpoint e) ((now - start) / 1000).toNat
    rw [UInt64.le_iff_toNat_le] at hle
    rw [UInt64.lt_iff_toNat_lt] at hlt
    rw [latency_finish_of_timed hnotice he']
    exact ⟨hle, hlt⟩
  · have hgrown := latency_run_failing he' hfail hlow
    refine pick_of_lt (run_fastest (run_fastest hbuilt history) actions) hother ?_ ?_ now draw
    · rw [(kept_run before actions).admits_eq, hkept.admits_eq]
      exact hadmits
    · exact UInt64.lt_iff_toNat_lt.mpr
        (lt_of_lt_of_le (lt_min hahead (Nat.lt_sub_of_add_lt hroom)) hgrown)

/-- Ten against twelve microseconds, and three failures at once. -/
theorem slowed_by_failures_at_once :
    let inst : Instance := { name := "svc", address := "h" }
    let s : Selector := { Selector.ofMode .fastest none with
      endpoints := [⟨inst, 0, 0, 10⟩, ⟨inst, 1, 0, 12⟩] }
    let call : Call := { service := "svc", method := "M" }
    let picked : Pick := ⟨⟨0, .latency 0 0⟩, 1⟩
    let before := (s.rebuild [0, 1]).run [.pick call 0 0, .finish picked false 10000]
    let actions : List Action := List.replicate 3 (.finish picked true 0)
    s.mode = .fastest ∧ 0 < s.endpoints.length ∧ (before.endpoint 0).latency = 10 ∧
      ((before.run actions).endpoint 0).latency = 20 ∧
      (before.endpoint 0).latency.toNat < ((before.finish picked true 0).endpoint 0).latency.toNat ∧
      ∃ pick, (before.run actions).pick call 0 0 = .ok (before.run actions, pick) ∧
        pick.endpoint ≠ 0 := by
  intro inst s call picked before actions
  obtain ⟨hgrows, havoided⟩ :=
    slowed_by_failures s rfl [0, 1] [.pick call 0 0, .finish picked false 10000] 0 (by decide)
  refine ⟨rfl, by decide, by decide +kernel, by decide +kernel,
    (hgrows picked 0 0 rfl).2.mpr (by decide +kernel), ?_⟩
  exact havoided (by decide +kernel) actions (by decide) 1 (by decide) call rfl (by decide +kernel)
    (by decide +kernel) 0 0

theorem modify_eq_self (h : f (s.endpoint e) = s.endpoint e) : s.modify e f = s := by
  have hends : s.endpoints.modify e f = s.endpoints := by
    apply List.ext_getElem?
    intro j
    rw [List.getElem?_modify]
    cases hj : s.endpoints[j]? with
    | none => rfl
    | some x =>
      have hx : s.endpoint j = x := by rw [endpoint, hj, Option.getD_some]
      by_cases hej : e = j
      · subst hej
        rw [hx] at h
        simp [h]
      · simp [hej]
  rw [modify, hends]

/-- Thirty calls that succeed at once take the average of an endpoint to zero. Any number of calls
that fail at once leave it there: all of them go to that endpoint, and none to the other one, whose
average stays at a tenth of a second. -/
theorem unslowed_by_failures :
    let inst : Instance := { name := "svc", address := "h" }
    let s : Selector := { Selector.ofMode .fastest none with
      endpoints := [{ inst, pool := 0 }, { inst, pool := 1 }] }
    let call : Call := { service := "svc", method := "M" }
    let picked : Pick := ⟨⟨0, .latency 0 0⟩, 1⟩
    let history : List Action :=
      (List.replicate 30 [.pick call 0 0, .finish picked false 0]).flatten
    let driven := (s.rebuild [0, 1]).run history
    (s.rebuild [0, 1]).picks history = List.replicate 30 (.ok picked) ∧
      (driven.endpoint 0).latency = 0 ∧ (driven.endpoint 1).latency = 100000 ∧
      ¬(driven.endpoint 0).latency < ((driven.finish picked true 0).endpoint 0).latency ∧
      ∀ k, driven.picks (List.replicate k [.pick call 0 0, .finish picked true 0]).flatten =
          List.replicate k (.ok picked) ∧
        driven.run (List.replicate k [.pick call 0 0, .finish picked true 0]).flatten = driven := by
  intro inst s call picked history driven
  have hslow : (driven.endpoint 0).observe 0 true = driven.endpoint 0 := by decide +kernel
  have hfinish : driven.finish picked true 0 = driven := modify_eq_self hslow
  have hpick : driven.pick call 0 0 = .ok (driven, picked) := by
    have hleast : ([0, 1].filter (driven.admits call)).minOn?
        (fun e => (driven.endpoint e).latency) = some 0 := by
      decide +kernel
    have hpicker : driven.picker = .fastest [0, 1] := run_fastest rfl history
    have hgeneration : driven.generation = 1 := (kept_run (s.rebuild [0, 1]) history).generation_eq
    rw [pick_fastest hpicker, hleast, hgeneration]
  refine ⟨by decide +kernel, by decide +kernel, by decide +kernel, ?_,
    fun k => (run_again hpick hfinish k).symm⟩
  rw [hfinish]
  exact UInt64.lt_irrefl _

end Selector
end RemoteCall.Selection
